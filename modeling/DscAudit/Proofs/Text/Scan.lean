import DscAudit.Text.Lines
import Mathlib.Data.List.TakeWhile
import Mathlib.Tactic

/-!
# Reading by offsets

A reader that keeps an offset instead of the rest of its text can go wrong where a reader of lists cannot:
it can look behind the end, ask a table for a key that it lacks, break an assertion or go on forever.
Here these outcomes are made explicit, and loops get a number of turns that they must keep to.  A loop that
moves on with every turn, and whose turns keep the result, needs no more turns than it has places to go.
-/

namespace DscAudit.Text

/-- Why a reading by offsets comes to no result: by its own fault, or because it went wrong. -/
inductive Halt (ε : Type) where
  | fault (error : ε)
  | pastEnd
  | unknownKey
  | brokenAssertion
  | endless

section

variable {ε : Type}

/-- The character at an offset, which must lie in the text. -/
def charAt (text : List Char) (offset : Nat) : Except (Halt ε) Char :=
  match text[offset]? with
  | some c => .ok c
  | none => .error .pastEnd

/-- Does a part stand at an offset?  It is no error to ask behind the end. -/
def startsAt (text : List Char) (offset : Nat) (part : List Char) : Bool :=
  part.isPrefixOf (text.drop offset)

/-- How many characters stand before the first place where a part stands. -/
def distance? (part : List Char) : List Char → Option Nat
  | [] => if part.isEmpty then some 0 else none
  | c :: rest => if part.isPrefixOf (c :: rest) then some 0 else (distance? part rest).map (· + 1)

/-- The first offset from another one on where a part stands. -/
def find? (text part : List Char) (offset : Nat) : Option Nat :=
  (distance? part (text.drop offset)).map (offset + ·)

theorem distance?_newline (s : List Char) :
    distance? ['\n'] s =
      if '\n' ∈ s then some (s.takeWhile (· != '\n')).length else none := by
  induction s with
  | nil => rfl
  | cons c s ih =>
      rw [distance?, ih]
      by_cases hc : c = '\n'
      · subst hc
        rfl
      · have hnot : ¬ ['\n'].isPrefixOf (c :: s) = true := by
          rw [List.isPrefixOf_iff_prefix, List.cons_prefix_cons]
          exact fun h => hc h.1.symm
        rw [if_neg hnot]
        by_cases hs : '\n' ∈ s <;> simp [hc, hs, Ne.symm hc]

theorem charAt_of_drop {text rest : List Char} {offset : Nat} {c : Char}
    (h : text.drop offset = c :: rest) : charAt (ε := ε) text offset = .ok c := by
  have hget : text[offset]? = some c := by
    rw [← List.head?_drop, h]
    rfl
  rw [charAt, hget]

theorem startsAt_of_drop {text rest : List Char} {offset : Nat} (h : text.drop offset = rest)
    (part : List Char) : startsAt text offset part = part.isPrefixOf rest := by
  rw [startsAt, h]

theorem drop_add_of_drop {text first rest : List Char} {offset : Nat}
    (h : text.drop offset = first ++ rest) : text.drop (offset + first.length) = rest := by
  rw [← List.drop_drop, h, List.drop_left]

theorem drop_succ_of_drop {text rest : List Char} {offset : Nat} {c : Char}
    (h : text.drop offset = c :: rest) : text.drop (offset + 1) = rest :=
  @drop_add_of_drop text [c] rest offset h

theorem startsAt_singleton_iff {text rest : List Char} {offset : Nat} {first : Char}
    (h : text.drop offset = rest) : startsAt text offset [first] = true ↔ rest.head? = some first := by
  rw [startsAt_of_drop h, List.isPrefixOf_iff_prefix]
  constructor
  · rintro ⟨behind, rfl⟩
    rfl
  · intro hfirst
    obtain ⟨behind, rfl⟩ := List.head?_eq_some_iff.1 hfirst
    exact ⟨behind, rfl⟩

theorem startsAt_pair_iff {text rest : List Char} {offset : Nat} {first second : Char}
    (h : text.drop offset = rest) :
    startsAt text offset [first, second] = true ↔
      rest.head? = some first ∧ rest.tail.head? = some second := by
  rw [startsAt_of_drop h, List.isPrefixOf_iff_prefix]
  constructor
  · rintro ⟨behind, rfl⟩
    exact ⟨rfl, rfl⟩
  · rintro ⟨hfirst, hsecond⟩
    obtain ⟨behind, rfl⟩ := List.head?_eq_some_iff.1 hfirst
    obtain ⟨behind, rfl⟩ := List.head?_eq_some_iff.1 hsecond
    exact ⟨behind, rfl⟩

theorem lt_length_of_drop {text rest : List Char} {offset : Nat} {c : Char}
    (h : text.drop offset = c :: rest) : offset < text.length := by
  by_contra hle
  rw [List.drop_eq_nil_of_le (Nat.le_of_not_lt hle)] at h
  cases h

theorem length_of_drop {text rest : List Char} {offset : Nat} {c : Char}
    (h : text.drop offset = c :: rest) : text.length = offset + rest.length + 1 := by
  have hlength := congrArg List.length h
  have hlt := lt_length_of_drop h
  rw [List.length_drop, List.length_cons] at hlength
  omega

/-- The end of the line, or of the text. -/
theorem getD_find?_newline {text rest : List Char} {offset : Nat} {c : Char}
    (h : text.drop offset = c :: rest) :
    (find? text ['\n'] offset).getD text.length =
      offset + ((c :: rest).takeWhile (· != '\n')).length := by
  have hlength := length_of_drop h
  rw [find?, h, distance?_newline]
  by_cases hmem : '\n' ∈ c :: rest
  · rw [if_pos hmem]
    rfl
  · have hall : (c :: rest).takeWhile (· != '\n') = c :: rest :=
      List.takeWhile_eq_self_iff.2 fun d hd => by
        rw [bne_iff_ne]
        rintro rfl
        exact hmem hd
    rw [if_neg hmem, hall, List.length_cons]
    exact hlength.trans (Nat.add_assoc _ _ _)

end

/-! ## Readings of lists -/

section

variable {ε α β γ δ : Type}

/-- What a reading of lists comes to, as a reading by offsets shows it. -/
def settled (shown : β → α) : Except ε β → Except (Halt ε) α
  | .ok found => .ok (shown found)
  | .error fault => .error (.fault fault)

theorem bind_eq_settled {shown : β → α} {shown' : δ → γ} {read : Except (Halt ε) α}
    {found : Except ε β} {onward : α → Except (Halt ε) γ} {further : β → Except ε δ}
    (hread : read = settled shown found)
    (honward : ∀ result, found = .ok result →
      onward (shown result) = settled shown' (further result)) :
    (read >>= onward) = settled shown' (found >>= further) := by
  subst hread
  rcases found with fault | result
  · rfl
  · exact honward result rfl

end

/-! ## Loops -/

section

variable {ε σ α : Type} {turn : σ → Except (Halt ε) (σ ⊕ α)} {result : σ → Except (Halt ε) α}
  {size : σ → Nat} {invariant : σ → Prop}

/-- A loop: a turn goes on with another state or ends with a result. -/
def loop (turn : σ → Except (Halt ε) (σ ⊕ α)) : Nat → σ → Except (Halt ε) α
  | 0, _ => .error .endless
  | turns + 1, state => do
    match ← turn state with
    | .inl next => loop turn turns next
    | .inr value => return value

/-- A turn goes on with a smaller state that has the same result, or ends with the result. -/
def Keeps (result : σ → Except (Halt ε) α) (size : σ → Nat) (invariant : σ → Prop) (state : σ) :
    Except (Halt ε) (σ ⊕ α) → Prop
  | .ok (.inl next) => invariant next ∧ size next < size state ∧ result next = result state
  | .ok (.inr value) => result state = .ok value
  | .error halt => result state = .error halt

/-- Every turn that goes on does so at a greater place. -/
def MovesOn (invariant : σ → Prop) (place : σ → Nat) (turn : σ → Except (Halt ε) (σ ⊕ α)) : Prop :=
  ∀ state next, invariant state → turn state = .ok (.inl next) →
    invariant next ∧ place state < place next

/-- The size of a state is how far its place is from a bound. -/
theorem movesOn_of_keeps {place : σ → Nat} {bound : Nat}
    (hturn : ∀ state, invariant state →
      Keeps result (fun state => bound - place state) invariant state (turn state)) :
    MovesOn invariant place turn := by
  intro state next hstate hnext
  have hkeeps := hturn state hstate
  rw [hnext] at hkeeps
  obtain ⟨hinvariant, hsize, _⟩ := hkeeps
  exact ⟨hinvariant, by dsimp only at hsize; omega⟩

/-- The induction is on the number of turns, which is greater than the size of the state. -/
theorem loop_eq (hturn : ∀ state, invariant state → Keeps result size invariant state (turn state))
    {turns : Nat} {state : σ} (hstate : invariant state) (hturns : size state < turns) :
    loop turn turns state = result state := by
  induction turns generalizing state with
  | zero => exact absurd hturns (Nat.not_lt_zero _)
  | succ turns ih =>
      have hkeeps := hturn state hstate
      rw [loop]
      rcases hout : turn state with halt | next | value <;> rw [hout] at hkeeps
      · exact hkeeps.symm
      · obtain ⟨hnext, hsize, hresult⟩ := hkeeps
        exact (ih hnext (by omega)).trans hresult
      · exact hkeeps.symm

end

/-! ## Positions -/

section

variable {ε : Type}

/-- The offsets behind the line feeds of a text that starts at an offset. -/
def lineStartsFrom (offset : Nat) : List Char → List Nat
  | [] => []
  | c :: rest =>
    if c = '\n' then (offset + 1) :: lineStartsFrom (offset + 1) rest
    else lineStartsFrom (offset + 1) rest

/-- The offsets where lines start. -/
def lineStarts (text : List Char) : List Nat := 0 :: lineStartsFrom 0 text

/-- The position of an offset, as the last line that does not start behind it and the distance from there. -/
def position (text : List Char) (offset : Nat) : Except (Halt ε) Position :=
  match ((lineStarts text).takeWhile (· ≤ offset)).length with
  | 0 => .error .pastEnd
  | line + 1 =>
    match (lineStarts text)[line]? with
    | none => .error .pastEnd
    | some start => .ok ⟨line + 1, offset - start + 1⟩

theorem lt_of_mem_lineStartsFrom {offset place : Nat} {s : List Char}
    (h : place ∈ lineStartsFrom offset s) : offset < place := by
  induction s generalizing offset with
  | nil => cases h
  | cons c rest ih =>
      rw [lineStartsFrom] at h
      split at h
      · rcases List.mem_cons.1 h with rfl | h
        · exact Nat.lt_succ_self _
        · exact Nat.lt_of_succ_lt (ih h)
      · exact Nat.lt_of_succ_lt (ih h)

/-- How many characters stand behind the last line feed. -/
def columnOf (s : List Char) : Nat := (s.reverse.takeWhile (· != '\n')).length

theorem columnOf_concat (s : List Char) (c : Char) :
    columnOf (s ++ [c]) = if c = '\n' then 0 else columnOf s + 1 := by
  rw [columnOf, List.reverse_append, List.reverse_singleton, List.singleton_append]
  by_cases hc : c = '\n'
  · subst hc
    rfl
  · rw [if_neg hc, List.takeWhile_cons_of_pos (by simpa using hc), List.length_cons]
    rfl

theorem takeWhile_lineStartsFrom (offset : Nat) (s : List Char) :
    (lineStartsFrom offset s).takeWhile (· ≤ offset) = [] := by
  rw [List.takeWhile_eq_nil_iff]
  intro hpos hle
  have hlt : offset < (lineStartsFrom offset s).get ⟨0, hpos⟩ :=
    lt_of_mem_lineStartsFrom (List.get_mem _ _)
  rw [decide_eq_true_eq] at hle
  omega

/-- The induction is on the text behind `before`, in which the last line starts at `start`. -/
theorem lineStarts_split {before s : List Char} {start count : Nat}
    (hstart : start + columnOf before = before.length) (hcount : count ≤ s.length) :
    ∃ found,
      ((lineStartsFrom before.length s).takeWhile (· ≤ before.length + count)).length =
        (s.take count).count '\n' ∧
      (start :: lineStartsFrom before.length s)[(s.take count).count '\n']? = some found ∧
      found + columnOf (before ++ s.take count) = before.length + count := by
  induction s generalizing before start count with
  | nil =>
      obtain rfl := Nat.le_zero.1 hcount
      rw [List.take_nil, List.append_nil]
      exact ⟨start, rfl, rfl, hstart⟩
  | cons c rest ih =>
      rcases count with _ | count
      · rw [Nat.add_zero, takeWhile_lineStartsFrom, List.take_zero, List.append_nil]
        exact ⟨start, rfl, rfl, hstart⟩
      have hlength : (before ++ [c]).length = before.length + 1 := by simp
      have hsum : (before ++ [c]).length + count = before.length + (count + 1) := by omega
      have hconcat := columnOf_concat before c
      rw [List.take_succ_cons, List.append_cons, lineStartsFrom]
      by_cases hc : c = '\n'
      · subst hc
        rw [if_pos rfl] at hconcat ⊢
        obtain ⟨found, hlines, hfound, hcolumn⟩ := @ih (before ++ ['\n']) (before.length + 1) count
          (by omega) (Nat.le_of_succ_le_succ hcount)
        rw [hlength] at hlines hfound
        refine ⟨found, ?_, ?_, hcolumn.trans hsum⟩
        · rw [List.takeWhile_cons_of_pos (by simp), List.length_cons, List.count_cons_self,
            ← hsum, hlength, hlines]
        · rw [List.count_cons_self]
          exact hfound
      · rw [if_neg hc] at hconcat ⊢
        obtain ⟨found, hlines, hfound, hcolumn⟩ := @ih (before ++ [c]) start count
          (by omega) (Nat.le_of_succ_le_succ hcount)
        rw [hlength] at hlines hfound
        refine ⟨found, ?_, ?_, hcolumn.trans hsum⟩
        · rw [List.count_cons_of_ne hc, ← hsum, hlength, hlines]
        · rw [List.count_cons_of_ne hc]
          exact hfound

theorem length_lineStarts (text : List Char) (offset : Nat) :
    ((lineStarts text).takeWhile (· ≤ offset)).length =
      ((lineStartsFrom 0 text).takeWhile (· ≤ offset)).length + 1 := by
  rw [lineStarts, List.takeWhile_cons_of_pos (by simp), List.length_cons]

/-- Within the text the position is the one that the text before it has. -/
theorem position_eq {text : List Char} {offset : Nat} (h : offset ≤ text.length) :
    (position text offset : Except (Halt ε) Position) = .ok (positionAt text offset) := by
  obtain ⟨start, hlines, hstart, hcolumn⟩ := @lineStarts_split [] text 0 offset rfl h
  rw [List.length_nil, Nat.zero_add] at hlines hcolumn
  rw [position, length_lineStarts, hlines]
  rw [List.length_nil] at hstart
  simp only [lineStarts, hstart]
  have hdistance : offset - start = columnOf (text.take offset) := by
    rw [List.nil_append] at hcolumn
    omega
  rw [hdistance, positionAt, Nat.add_comm 1, Nat.add_comm 1]
  rfl

/-- No offset is without a position. -/
theorem exists_position (text : List Char) (offset : Nat) :
    ∃ found, (position text offset : Except (Halt ε) Position) = .ok found := by
  have hle := ((lineStarts text).takeWhile_sublist (· ≤ offset)).length_le
  rw [length_lineStarts] at hle
  rw [position, length_lineStarts]
  dsimp only
  rw [List.getElem?_eq_getElem hle]
  exact ⟨_, rfl⟩

end

end DscAudit.Text
