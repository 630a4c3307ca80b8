import SortKey.RecordText
import SortKey.Session.Look
import SortKey.Settings.Options
import SortKey.View
import SortKey.Proofs.Escape
import SortKey.Proofs.Key.Framing
import SortKey.Proofs.Nesting
import SortKey.Proofs.Octets
import SortKey.Proofs.Key.Data
import SortKey.Proofs.Key.Reread
import SortKey.Proofs.Key.RoundTrip
import SortKey.Proofs.Key.Order
import SortKey.Proofs.Key.Prefix
import SortKey.Proofs.Key.Reading
import SortKey.Proofs.Key.Migration
import SortKey.Proofs.Key.Agreement
import SortKey.Proofs.Key.Canonical
import SortKey.Proofs.Field
import SortKey.Proofs.Stream.Form
import SortKey.Proofs.Stream.RoundTrip
import SortKey.Proofs.Codes
import SortKey.Proofs.Key.Grammar
import SortKey.Proofs.Key.Extension
import SortKey.Proofs.Session.Slice
import SortKey.Proofs.Key.Beginning
import SortKey.Proofs.Locality
import SortKey.Proofs.Stream.Locality
import SortKey.Proofs.Stream.Atomic
import SortKey.Proofs.Dialects
import SortKey.Proofs.Session.Decode
import SortKey.Proofs.Cursor
import SortKey.Proofs.Key.Numbers
import SortKey.Proofs.Key.Texts
import SortKey.Proofs.View
import SortKey.Proofs.View.Order
import SortKey.Proofs.Escape.Runs
import SortKey.Proofs.Escape.Order
import SortKey.Proofs.Key.Nested
import SortKey.Proofs.Key.Splicing
import SortKey.Proofs.VarInt.Spelling
import SortKey.Proofs.VarInt.Word
import SortKey.Proofs.Field.Extent
import SortKey.Proofs.Cursor.Discipline
import SortKey.Key.FrameViews
import SortKey.Proofs.Key.FrameViews
import SortKey.Proofs.Failures
import SortKey.Proofs.Key.Growth
import SortKey.Key.Recoding
import SortKey.Proofs.Key.Recoding
import SortKey.Proofs.View.Making
import SortKey.Proofs.View.Shelf
import SortKey.Proofs.Session.Soundness
import SortKey.Session.Held
import SortKey.Proofs.Session.Looks
import SortKey.Proofs.Session.Held
import SortKey.Proofs.Escape.Separator
import SortKey.Proofs.Escape.Copies
import SortKey.Stream.Room
import SortKey.Proofs.Stream.Cost
