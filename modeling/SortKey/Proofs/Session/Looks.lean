import SortKey.Proofs.Session.Soundness

namespace SortKey
namespace Session

/-!
# Looking keeps records

Whatever is looked at in a session, values that are found on the way are remembered and
nested records are opened.  That leaves a sound session, which has grown from the one
before.  It does not matter what is found, so the actions are put together without a word
about outcomes.
-/

/-- From a sound session the action leaves a sound one that has grown. -/
def Keeps {α : Type} (action : SessionM α) : Prop :=
  forall before : Session, before.Sound -> before.Grows action fun _ _ => True

namespace Keeps

section Actions

variable {α β : Type}

theorem of_grows {action : SessionM α} {post : Session -> α -> Prop}
    (grows : forall before : Session, before.Sound -> before.Grows action post) : Keeps action :=
  fun before sound => (grows before sound).imp fun _ _ _ => trivial

protected theorem pure (outcome : α) : Keeps (pure outcome) :=
  fun _ sound => Grows.pure sound trivial

protected theorem bind {first : SessionM α} {next : α -> SessionM β} (here : Keeps first)
    (later : forall outcome, Keeps (next outcome)) : Keeps (first >>= next) :=
  fun before sound =>
    (here before sound).bind fun after outcome sound _ _ => later outcome after sound

protected theorem get {action : Session -> SessionM α}
    (next : forall session, Keeps (action session)) : Keeps (get >>= action) :=
  fun before sound => Grows.get (next before before sound)

end Actions

theorem report (events : List Event) : Keeps (Session.report events) :=
  fun _ sound => Grows.report sound events

theorem access (place : Place) : Keeps (Session.access place) :=
  fun _ sound => Grows.access sound place

theorem nestedAt (place : Place) : Keeps (Session.nestedAt place) :=
  of_grows fun _ sound => Grows.nestedAt sound place

theorem openRecord (source : Source) (entries : List Entry) :
    Keeps (Session.openRecord source entries) :=
  of_grows fun _ sound => Grows.openRecord sound source entries

theorem rememberData (place : Place) : Keeps (Session.rememberData place) :=
  fun _ sound => Grows.rememberData sound place

/-! ## Finding data -/

mutual

theorem dataOfValue (nested : Slice) : forall value : Value,
    Keeps (Session.dataOfValue nested value)
  | .record entries => dataOfEntries nested 0 entries
  | .byte _ | .bytes _ | .double _ | .integer _ | .long _ | .text _ => Keeps.pure _

theorem dataOfEntry (place : Place) : forall entry : Entry, Keeps (Session.dataOfEntry place entry)
  | .ofValue value => by
      apply Keeps.get
      intro session
      cases session.cellAt? place with
      | none => exact Keeps.pure _
      | some cell =>
          dsimp only
          split
          · exact Keeps.pure _
          · apply (access place).bind
            intro _
            apply (nestedAt place).bind
            intro nested
            apply (dataOfValue nested value).bind
            exact fun _ => rememberData place
  | .undecodable kind data cause => by
      apply Keeps.get
      intro session
      cases session.cellAt? place with
      | none => exact Keeps.pure _
      | some cell =>
          dsimp only
          split
          · exact Keeps.pure _
          · apply (access place).bind
            exact fun _ => rememberData place

theorem dataOfEntries (slice : Slice) (index : Nat) : forall entries : List Entry,
    Keeps (Session.dataOfEntries slice index entries)
  | [] => Keeps.pure _
  | entry :: entries => by
      apply (dataOfEntry (placeOf slice index) entry).bind
      exact fun _ => dataOfEntries slice (index + 1) entries

end

theorem dataOfSlice (slice : Slice) : Keeps (Session.dataOfSlice slice) :=
  Keeps.get fun session => dataOfEntries slice 0 (session.record slice)

/-! ## Walks -/

/-- Where a value is missing, the walk keeps records too. -/
def Harmless (walk : Walk) : Prop :=
  forall place entry, Keeps (walk.missing place entry)

theorem harmless_everything : Harmless .everything :=
  fun _ _ => Keeps.pure _

theorem harmless_upTo (levels : Nat) : Harmless (.upTo levels) :=
  fun _ _ => Keeps.pure _

theorem harmless_untilMissing : Harmless .untilMissing :=
  fun _ _ => Keeps.pure _

theorem harmless_hashing : Harmless .hashing :=
  fun place entry => (dataOfEntry place entry).bind fun _ => Keeps.pure _

mutual

theorem walkValue {walk : Walk} (harmless : Harmless walk) (nested : Slice) : forall value : Value,
    Keeps (Session.walkValue walk nested value)
  | .record entries => by
      rw [Session.walkValue]
      split
      · have inner : Harmless walk.inner := harmless
        exact walkEntries inner nested 0 entries
      · exact Keeps.pure _
  | .byte _ | .bytes _ | .double _ | .integer _ | .long _ | .text _ => Keeps.pure _

theorem walkEntry {walk : Walk} (harmless : Harmless walk) (place : Place) : forall entry : Entry,
    Keeps (Session.walkEntry walk place entry)
  | .ofValue value => by
      apply (access place).bind
      intro _
      apply (nestedAt place).bind
      exact fun nested => walkValue harmless nested value
  | .undecodable kind data cause => by
      apply (access place).bind
      exact fun _ => harmless place _

theorem walkEntries {walk : Walk} (harmless : Harmless walk) (slice : Slice) (index : Nat) :
    forall entries : List Entry, Keeps (Session.walkEntries walk slice index entries)
  | [] => Keeps.pure _
  | entry :: entries => by
      apply (walkEntry harmless (placeOf slice index) entry).bind
      intro goOn
      cases goOn with
      | true => exact walkEntries harmless slice (index + 1) entries
      | false => exact Keeps.pure _

end

theorem walkSlice {walk : Walk} (harmless : Harmless walk) (slice : Slice) :
    Keeps (Session.walkSlice walk slice) := by
  apply Keeps.get
  intro session
  exact (walkEntries harmless slice 0 (session.record slice)).bind fun _ => Keeps.pure _

/-! ## Comparing -/

private theorem accessBoth (a b : Place) :
    Keeps (do Session.access a; Session.access b) :=
  (access a).bind fun _ => access b

mutual

theorem compareValues (a b : Slice) : forall x y : Value, Keeps (Session.compareValues a b x y)
  | .record as, .record bs => by
      rw [Session.compareValues]
      split
      · exact Keeps.pure _
      · exact compareEntries a b 0 as bs
  | .byte _, _ | .bytes _, _ | .double _, _ | .integer _, _ | .long _, _ | .text _, _ =>
      Keeps.pure _
  | .record _, .byte _ | .record _, .bytes _ | .record _, .double _ | .record _, .integer _
  | .record _, .long _ | .record _, .text _ => Keeps.pure _

theorem compareEntry (a b : Place) : forall x y : Entry, Keeps (Session.compareEntry a b x y)
  | .ofValue x, .ofValue y => by
      rw [Session.compareEntry]
      split
      · apply (access a).bind
        intro _
        apply (access b).bind
        intro _
        apply (nestedAt a).bind
        intro nested
        apply (nestedAt b).bind
        exact fun nested' => compareValues nested nested' x y
      · exact Keeps.pure _
  | .undecodable kind data cause, .undecodable kind' data' cause' => by
      rw [Session.compareEntry]
      split
      · apply (access a).bind
        intro _
        apply (access b).bind
        intro _
        apply (dataOfEntry a _).bind
        exact fun _ => dataOfEntry b _
      · exact Keeps.pure _
  | .ofValue x, .undecodable kind _ _ => by
      rw [Session.compareEntry]
      split
      · exact accessBoth a b
      · exact Keeps.pure _
  | .undecodable kind _ _, .ofValue y => by
      rw [Session.compareEntry]
      split
      · exact accessBoth a b
      · exact Keeps.pure _

theorem compareEntries (a b : Slice) (index : Nat) : forall xs ys : List Entry,
    Keeps (Session.compareEntries a b index xs ys)
  | x :: xs, y :: ys => by
      rw [Session.compareEntries]
      apply (compareEntry _ _ x y).bind
      intro _
      split
      · exact compareEntries a b (index + 1) xs ys
      · exact Keeps.pure _
  | [], _ => Keeps.pure _
  | _ :: _, [] => Keeps.pure _

end

theorem compareSlices (a b : Slice) : Keeps (Session.compareSlices a b) :=
  Keeps.get fun _ => compareValues a b _ _

theorem orderSlices (a b : Slice) : Keeps (Session.orderSlices a b) := by
  unfold Session.orderSlices
  split
  · exact Keeps.pure _
  · exact (dataOfSlice a).bind fun _ => dataOfSlice b

/-! ## Operations -/

/-- Whatever is answered from the session, it stays as it is. -/
private theorem answer {α : Type} (found : Session -> α) : Keeps (return found (<- get)) :=
  Keeps.get fun _ => Keeps.pure _

theorem look (levels : Nat) (slice : Slice) : Keeps (Session.look levels slice) :=
  (walkSlice (harmless_upTo levels) slice).bind fun _ => answer _

theorem accessValues (slice : Slice) (index : Nat) : forall entries : List Entry,
    Keeps (Session.accessValues slice index entries)
  | .ofValue _ :: entries => by
      apply (access _).bind
      exact fun _ => accessValues slice (index + 1) entries
  | .undecodable _ _ _ :: _ => access _
  | [] => Keeps.pure _

theorem values (levels : Nat) (slice : Slice) : Keeps (Session.values levels slice) := by
  apply Keeps.get
  intro session
  apply (accessValues slice 0 _).bind
  intro _
  cases (session.record slice).values with
  | ok found => exact (walkSlice (harmless_upTo levels) slice).bind fun _ => Keeps.pure _
  | error cause => exact Keeps.pure _

theorem showText (slice : Slice) : Keeps (Session.showText slice) :=
  (walkSlice harmless_everything slice).bind fun _ => answer _

theorem key (slice : Slice) : Keeps (Session.key slice) :=
  (dataOfSlice slice).bind fun _ => answer _

theorem stableHash (slice : Slice) : Keeps (Session.stableHash slice) :=
  (dataOfSlice slice).bind fun _ => answer _

theorem keyPrefix (slice : Slice) (terminated : Bool) (count : Nat) :
    Keeps (Session.keyPrefix slice terminated count) := by
  apply Keeps.get
  intro session
  dsimp only
  split
  · exact (dataOfEntries slice 0 _).bind fun _ => Keeps.pure _
  · exact Keeps.pure _

theorem writeTo (slice : Slice) (writer : Writer) : Keeps (Session.writeTo slice writer) :=
  (walkSlice harmless_untilMissing slice).bind fun _ => answer _

theorem stream (slice : Slice) : Keeps (Session.stream slice) :=
  (walkSlice harmless_untilMissing slice).bind fun _ => answer _

theorem withEntry {α : Type} (slice : Slice) (index : Nat)
    {action : Place -> Entry -> SessionM (Except RecordError α)}
    (keeps : forall place entry, Keeps (action place entry)) :
    Keeps (Session.withEntry slice index action) := by
  apply Keeps.get
  intro session
  cases (session.record slice).entryAt index with
  | ok entry => exact keeps _ entry
  | error cause => exact Keeps.pure _

theorem get? (levels : Nat) (slice : Slice) (index : Nat) :
    Keeps (Session.get? levels slice index) :=
  withEntry slice index fun place entry =>
    (walkEntry (harmless_upTo levels) place entry).bind fun _ => Keeps.pure _

theorem getAs (levels : Nat) (slice : Slice) (index : Nat) (expected : Kind) :
    Keeps (Session.getAs levels slice index expected) := by
  apply withEntry slice index
  intro place entry
  dsimp only
  split
  · exact (walkEntry (harmless_upTo levels) place entry).bind fun _ => answer _
  · exact answer _

theorem entry (levels : Nat) (slice : Slice) (index : Nat) :
    Keeps (Session.entry levels slice index) := by
  apply withEntry slice index
  intro place entry
  apply (walkEntry harmless_everything place entry).bind
  intro _
  apply (walkEntry harmless_everything place entry).bind
  intro _
  apply (dataOfEntry place entry).bind
  intro _
  apply (walkEntry (harmless_upTo levels) place entry).bind
  intro _
  exact (access place).bind fun _ => Keeps.pure _

theorem valueText (slice : Slice) (index : Nat) : Keeps (Session.valueText slice index) := by
  apply withEntry slice index
  intro place entry
  apply (walkEntry harmless_everything place entry).bind
  intro _
  cases entry with
  | ofValue value => exact (walkEntry harmless_everything place _).bind fun _ => Keeps.pure _
  | undecodable kind data cause => exact Keeps.pure _

theorem intoValue (levels : Nat) (slice : Slice) (index : Nat) :
    Keeps (Session.intoValue levels slice index) := by
  apply withEntry slice index
  intro place entry
  apply Keeps.get
  intro session
  have shown := harmless_upTo levels
  cases session.cellAt? place with
  | none => exact Keeps.pure _
  | some cell =>
      dsimp only
      split
      · apply (openRecord _ _).bind
        intro nested
        exact (walkValue shown nested _).bind fun _ => Keeps.pure _
      · exact (report _).bind fun _ => Keeps.pure _
      · exact (walkValue shown cell.nested _).bind fun _ => Keeps.pure _
      · exact Keeps.pure _

theorem compare (a b : Slice) : Keeps (Session.compare a b) := by
  apply (orderSlices a b).bind
  intro _
  apply (compareSlices a b).bind
  intro _
  apply (walkSlice harmless_hashing a).bind
  intro _
  apply (walkSlice harmless_hashing b).bind
  intro _
  apply (dataOfSlice a).bind
  intro _
  exact (dataOfSlice b).bind fun _ => answer _

theorem compareEntriesAt (a : Slice) (i : Nat) (b : Slice) (j : Nat) :
    Keeps (Session.compareEntriesAt a i b j) := by
  apply withEntry a i
  intro x left
  apply withEntry b j
  intro y right
  apply (compareEntry x y left right).bind
  intro _
  apply (walkEntry harmless_hashing x left).bind
  intro _
  exact (walkEntry harmless_hashing y right).bind fun _ => Keeps.pure _

end Keeps
end Session
end SortKey
