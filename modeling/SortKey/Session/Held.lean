import SortKey.Session.Look

namespace SortKey

/-!
# Records that are held

Whoever works in a session holds records and builders, and asks for more of them.  Here
both are numbered in the order in which they were handed out, and a number that was never
handed out stands for an empty one.  Requests that fail hand out nothing.  Those that look
at a record hand out nothing either, but what they find is remembered.
-/

/-- Something to add to a builder. -/
inductive Item where
  /-- A value that is no record. -/
  | value (value : Value)
  /-- A record that is held. -/
  | held (of : Nat)

/-- A look at records that are held. -/
inductive Look where
  | dump (levels of : Nat)
  | values (levels of : Nat)
  | text (of : Nat)
  | key (of : Nat)
  | stableHash (of : Nat)
  | keyPrefix (of : Nat) (terminated : Bool) (count : Nat)
  | write (of : Nat) (writer : Writer)
  | stream (of : Nat)
  | get (levels of index : Nat)
  | getAs (levels of index : Nat) (expected : Kind)
  | entry (levels of index : Nat)
  | valueText (of index : Nat)
  | intoValue (levels of index : Nat)
  | compare (a b : Nat)
  | compareEntries (a i b j : Nat)

/-- What is asked of a session. -/
inductive Request where
  | empty
  | collect (items : List Item)
  | newBuilder
  /-- A builder that starts with the entries of a record. -/
  | toBuilder (of : Nat)
  | add (builder : Nat) (item : Item)
  /-- Add something that may be missing. -/
  | tryAdd (builder : Nat) (item : Option Item)
  | append (builder of : Nat)
  | build (builder : Nat)
  | decode (dialect : Option Dialect) (bytes : Bytes)
  | read (dialect : Option Dialect) (bytes : Bytes)
  /-- Read a record that takes all the octets. -/
  | readExact (bytes : Bytes)
  | subrange (of start stop : Nat)
  | fromIndex (of index : Nat)
  | toIndex (of index : Nat)
  /-- The nested record at a position. -/
  | take (of index : Nat)
  | look (looking : Look)

/-- The record of parts in their order. -/
def Builder.collect (parts : List Part) : SessionM Slice := do
  let builder <- parts.foldlM (fun builder part => builder.add part) Builder.empty
  builder.build

/-- A session with the records and builders that were handed out. -/
structure Holding where
  session : Session
  slices : List Slice
  builders : List Builder

namespace Holding

def start : Holding := ⟨Session.start, [], []⟩

def slice (holding : Holding) (of : Nat) : Slice :=
  holding.slices.getD of Slice.empty

def builder (holding : Holding) (number : Nat) : Builder :=
  holding.builders.getD number Builder.empty

def part (holding : Holding) : Item -> Part
  | .value value => .value value
  | .held of => .nested (holding.slice of)

/-- Hand out the record that an action makes. -/
def keep (holding : Holding) (action : SessionM Slice) : Holding :=
  let done := action.run holding.session
  ⟨done.2, holding.slices ++ [done.1], holding.builders⟩

/-- Hand out the record that an action makes, unless it fails. -/
def keepOk (holding : Holding) (action : SessionM (Except RecordError Slice)) : Holding :=
  let done := action.run holding.session
  match done.1 with
  | .ok slice => ⟨done.2, holding.slices ++ [slice], holding.builders⟩
  | .error _ => { holding with session := done.2 }

/-- Hand out the builder that an action makes in place of the one before. -/
def replace (holding : Holding) (number : Nat) (action : SessionM Builder) : Holding :=
  let done := action.run holding.session
  ⟨done.2, holding.slices, holding.builders.set number done.1⟩

/-- Hand out the builder that an action makes in place of the one before, unless it
fails. -/
def replaceOk (holding : Holding) (number : Nat) (action : SessionM (Except RecordError Builder)) :
    Holding :=
  let done := action.run holding.session
  match done.1 with
  | .ok builder => ⟨done.2, holding.slices, holding.builders.set number builder⟩
  | .error _ => { holding with session := done.2 }

/-- Perform an action for what it finds. -/
def forget {α : Type} (holding : Holding) (action : SessionM α) : Holding :=
  { holding with session := (action.run holding.session).2 }

def look (holding : Holding) : Look -> Holding
  | .dump levels of => holding.forget (Session.look levels (holding.slice of))
  | .values levels of => holding.forget (Session.values levels (holding.slice of))
  | .text of => holding.forget (Session.showText (holding.slice of))
  | .key of => holding.forget (Session.key (holding.slice of))
  | .stableHash of => holding.forget (Session.stableHash (holding.slice of))
  | .keyPrefix of terminated count =>
      holding.forget (Session.keyPrefix (holding.slice of) terminated count)
  | .write of writer => holding.forget (Session.writeTo (holding.slice of) writer)
  | .stream of => holding.forget (Session.stream (holding.slice of))
  | .get levels of index => holding.forget (Session.get? levels (holding.slice of) index)
  | .getAs levels of index expected =>
      holding.forget (Session.getAs levels (holding.slice of) index expected)
  | .entry levels of index => holding.forget (Session.entry levels (holding.slice of) index)
  | .valueText of index => holding.forget (Session.valueText (holding.slice of) index)
  | .intoValue levels of index => holding.forget (Session.intoValue levels (holding.slice of) index)
  | .compare a b => holding.forget (Session.compare (holding.slice a) (holding.slice b))
  | .compareEntries a i b j =>
      holding.forget (Session.compareEntriesAt (holding.slice a) i (holding.slice b) j)

def perform (holding : Holding) : Request -> Holding
  | .empty => holding.keep (return Slice.empty)
  | .collect items => holding.keep (Builder.collect (items.map holding.part))
  | .newBuilder => { holding with builders := holding.builders ++ [Builder.empty] }
  | .toBuilder of =>
      { holding with
        builders := holding.builders ++ [Builder.ofSlice holding.session (holding.slice of)] }
  | .add builder item => holding.replace builder ((holding.builder builder).add (holding.part item))
  | .tryAdd builder item =>
      holding.replaceOk builder ((holding.builder builder).tryAdd (item.map holding.part))
  | .append builder of =>
      holding.replace builder ((holding.builder builder).append (holding.slice of))
  | .build builder => holding.keep (holding.builder builder).build
  | .decode dialect bytes => holding.keepOk (Session.decode dialect bytes)
  | .read dialect bytes => holding.keepOk (Session.keepStream (Stream.read dialect bytes))
  | .readExact bytes => holding.keepOk (Session.keepStream (Stream.readExact bytes))
  | .subrange of start stop => holding.keepOk (return (holding.slice of).subrange start stop)
  | .fromIndex of index => holding.keepOk (return (holding.slice of).fromIndex index)
  | .toIndex of index => holding.keepOk (return (holding.slice of).toIndex index)
  | .take of index => holding.keepOk (Session.takeRecord (holding.slice of) index)
  | .look looking => holding.look looking

/-- Perform requests one after the other. -/
def performAll (holding : Holding) (requests : List Request) : Holding :=
  requests.foldl perform holding

end Holding
end SortKey
