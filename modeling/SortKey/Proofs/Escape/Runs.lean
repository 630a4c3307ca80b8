import SortKey.Proofs.View

namespace SortKey
namespace Escape

/-!
# Runs of the escape octet

All octets are runs of the escape octet, some of them empty, with one other octet
between any two.  There is only one way to see them so, which makes the runs the
longest possible ones.  Escaping doubles each run.  Collapsing halves each run, and
of a run of odd length it keeps the octet that has no partner.  The other octets
stay as they are.

Collapsing can therefore be undone where all runs are even.  That is also where the
search for a lone escape octet finds none.
-/

/-! ## Octets as runs -/

/-- Runs of the escape octet, by their lengths, with one other octet behind each
of them except the last. -/
inductive Runs (esc : UInt8) where
  | last (length : Nat)
  | next (length : Nat) (b : UInt8) (ordinary : b ≠ esc) (others : Runs esc)

namespace Runs

variable {esc : UInt8}

def octets : Runs esc -> Bytes
  | last length => List.replicate length esc
  | next length b _ others => List.replicate length esc ++ b :: others.octets

/-- The lengths of the runs, in order. -/
def lengths : Runs esc -> List Nat
  | last length => [length]
  | next length _ _ others => length :: others.lengths

/-- Runs of other lengths with the same octets between them. -/
def resized (resize : Nat -> Nat) : Runs esc -> Runs esc
  | last length => last (resize length)
  | next length b ordinary others => next (resize length) b ordinary (others.resized resize)

/-- One more escape octet in front. -/
def longer : Runs esc -> Runs esc
  | last length => last (length + 1)
  | next length b ordinary others => next (length + 1) b ordinary others

/-- The runs that octets consist of. -/
def ofOctets (esc : UInt8) : Bytes -> Runs esc
  | [] => last 0
  | b :: rest =>
      if special : b = esc then (ofOctets esc rest).longer
      else next 0 b special (ofOctets esc rest)

theorem octets_longer (runs : Runs esc) : runs.longer.octets = esc :: runs.octets := by
  cases runs <;> rfl

theorem octets_ofOctets (esc : UInt8) (bytes : Bytes) : (ofOctets esc bytes).octets = bytes := by
  induction bytes with
  | nil => rfl
  | cons b rest ih =>
      by_cases special : b = esc
      · rw [ofOctets, dif_pos special, octets_longer, ih, special]
      · rw [ofOctets, dif_neg special, octets, ih]
        rfl

private theorem ofOctets_replicate (length : Nat) :
    ofOctets esc (List.replicate length esc) = last length := by
  induction length with
  | zero => rfl
  | succ length ih => rw [List.replicate_succ, ofOctets, dif_pos rfl, ih, longer]

private theorem ofOctets_replicate_append (length : Nat) {b : UInt8} (ordinary : b ≠ esc)
    (rest : Bytes) :
    ofOctets esc (List.replicate length esc ++ b :: rest) =
      next length b ordinary (ofOctets esc rest) := by
  induction length with
  | zero => exact dif_neg ordinary
  | succ length ih =>
      rw [List.replicate_succ, List.cons_append, ofOctets, dif_pos rfl, ih, longer]

/-- Octets consist of no other runs than those that are found. -/
theorem ofOctets_octets (runs : Runs esc) : ofOctets esc runs.octets = runs := by
  -- Each run is found whole, because the octet behind it is no escape octet.
  induction runs with
  | last length => exact ofOctets_replicate length
  | next length b ordinary others ih =>
      rw [octets, ofOctets_replicate_append length ordinary, ih]

theorem octets_inj {runs others : Runs esc} : runs.octets = others.octets <-> runs = others := by
  constructor
  · intro same
    rw [← ofOctets_octets runs, same, ofOctets_octets]
  · exact congrArg octets

theorem resized_resized (first second : Nat -> Nat) (runs : Runs esc) :
    (runs.resized first).resized second = runs.resized fun length => second (first length) := by
  induction runs with
  | last length => rfl
  | next length b ordinary others ih => rw [resized, resized, resized, ih]

theorem resized_eq_self_iff (resize : Nat -> Nat) (runs : Runs esc) :
    runs.resized resize = runs <-> ∀ length ∈ runs.lengths, resize length = length := by
  induction runs with
  | last length => simp [resized, lengths]
  | next length b ordinary others ih => simp [resized, lengths, ih]

end Runs

/-! ## What becomes of a run -/

variable {esc : UInt8}

theorem escape_replicate (length : Nat) :
    escape esc (List.replicate length esc) = List.replicate (2 * length) esc := by
  induction length with
  | zero => rfl
  | succ length ih =>
      rw [List.replicate_succ, escape_cons_self, ih, Nat.mul_succ, List.replicate_succ,
        List.replicate_succ]

/-- Half of a run is kept, and the octet without a partner.  The run has to end
where it seems to. -/
private theorem unescape_replicate_append {rest : Bytes} (ends : rest.head? ≠ some esc) :
    (length : Nat) -> unescape esc (List.replicate length esc ++ rest) =
      List.replicate ((length + 1) / 2) esc ++ unescape esc rest
  | 0 => rfl
  | 1 => unescape_lone ends
  | length + 2 => by
      have halves : (length + 2 + 1) / 2 = (length + 1) / 2 + 1 := by omega
      rw [halves, List.replicate_succ, List.replicate_succ, List.replicate_succ, List.cons_append,
        List.cons_append, List.cons_append, unescape_pair, unescape_replicate_append ends length]

theorem escape_octets (runs : Runs esc) :
    escape esc runs.octets = (runs.resized (2 * ·)).octets := by
  induction runs with
  | last length => exact escape_replicate length
  | next length b ordinary others ih =>
      rw [Runs.octets, escape_append, escape_replicate, escape_cons_of_ne ordinary, ih]
      rfl

theorem unescape_octets (runs : Runs esc) :
    unescape esc runs.octets = (runs.resized fun length => (length + 1) / 2).octets := by
  induction runs with
  | last length =>
      have ends : ([] : Bytes).head? ≠ some esc := by simp
      have halved := unescape_replicate_append ends length
      rw [unescape_nil, List.append_nil, List.append_nil] at halved
      exact halved
  | next length b ordinary others ih =>
      have ends : (b :: others.octets).head? ≠ some esc := by simpa using ordinary
      rw [Runs.octets, unescape_replicate_append ends, unescape_cons_of_ne ordinary, ih]
      rfl

/-- Collapsing is undone by escaping where all runs are even. -/
theorem escape_unescape_octets_iff (runs : Runs esc) :
    escape esc (unescape esc runs.octets) = runs.octets <->
      ∀ length ∈ runs.lengths, length % 2 = 0 := by
  rw [unescape_octets, escape_octets, Runs.octets_inj, Runs.resized_resized,
    Runs.resized_eq_self_iff]
  apply forall₂_congr
  intro length _
  omega

/-! ## Both directions -/

/-- Collapsing undoes escaping, which adds one octet for each escape octet.
Escaping undoes collapsing exactly where no lone escape octet is found, and that is
where the runs are even.  Each run is halved and rounded up, and the octets between
the runs are kept.  The same is seen through views, whether or not they are
copied. -/
theorem inverse_exactly_on_pairs (esc : UInt8) :
    (forall data : Bytes, unescape esc (escape esc data) = data ∧
      (escape esc data).length = data.length + data.count esc) ∧
    (forall bytes : Bytes,
      (escape esc (unescape esc bytes) = bytes <-> findSeparator esc bytes = bytes.length) ∧
      (findSeparator esc bytes = bytes.length <->
        ∀ length ∈ (Runs.ofOctets esc bytes).lengths, length % 2 = 0)) ∧
    (forall runs : Runs esc, Runs.ofOctets esc runs.octets = runs) ∧
    (forall bytes : Bytes, (Runs.ofOctets esc bytes).octets = bytes ∧
      unescape esc bytes =
        ((Runs.ofOctets esc bytes).resized fun length => (length + 1) / 2).octets) ∧
    (forall (pool : Pool) (view : View),
      (view.escape pool esc).1.bytes = escape esc view.bytes ∧
      (view.unescape pool esc).1.bytes = unescape esc view.bytes) := by
  refine ⟨?_, ?_, Runs.ofOctets_octets, ?_, ?_⟩
  · intro data
    exact ⟨unescape_escape data, length_escape esc data⟩
  · intro bytes
    have undone := escape_unescape_iff esc bytes
    have even := escape_unescape_octets_iff (Runs.ofOctets esc bytes)
    rw [Runs.octets_ofOctets] at even
    exact ⟨undone, undone.symm.trans even⟩
  · intro bytes
    have halved := unescape_octets (Runs.ofOctets esc bytes)
    rw [Runs.octets_ofOctets] at halved
    exact ⟨Runs.octets_ofOctets esc bytes, halved⟩
  · intro pool view
    exact ⟨view.bytes_escape pool esc, view.bytes_unescape pool esc⟩

/-- A run of three is collapsed to two, which are not what it was before they were
escaped. -/
theorem inverse_exactly_on_pairs_not_on_odd_runs :
    unescape 0xFE [0xFE, 0xFE, 0xFE, 1] = [0xFE, 0xFE, 1] ∧
      findSeparator 0xFE [0xFE, 0xFE, 0xFE, 1] = 2 ∧
      escape 0xFE (unescape 0xFE [0xFE, 0xFE, 0xFE, 1]) ≠ [0xFE, 0xFE, 0xFE, 1] := by
  rcases inverse_exactly_on_pairs 0xFE with ⟨_, undone, _, halved, _⟩
  refine ⟨(halved _).2.trans (by decide), by decide, ?_⟩
  rw [ne_eq, (undone _).1]
  decide

end Escape
end SortKey
