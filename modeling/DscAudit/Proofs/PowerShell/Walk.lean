import DscAudit.PowerShell.Bracket
import Mathlib.Tactic

/-!
# Walks over code

The search for a closing bracket is a walk over lexemes with a stack of open brackets.  Its
derivations split where the stack gets shorter, so that between two brackets the code is a sequence
of lexemes and of whole groups.  The readers of parameter blocks move along such sequences: a place
that one of them reaches is a place that all of them reach.
-/

namespace DscAudit.PowerShell

def isBracket (c : Char) : Bool := (closer? c).isSome || isCloser c

theorem scanAt_eq_ok_iff {offset : Nat} {c : Char} {rest : List Char}
    {lexeme : Lexeme (c :: rest)} :
    Lexeme.scanAt offset c rest = .ok lexeme ↔ Lexeme.scan c rest = .ok lexeme := by
  unfold Lexeme.scanAt
  cases Lexeme.scan c rest with
  | error cause => simp
  | ok lexeme => simp

theorem ofLength?_kind {kind : LexemeKind} {cause : Cause} {s : List Char} {skipped : Nat}
    {n? : Option Nat} (pos : 0 < skipped) {le : ∀ n, n? = some n → skipped + n ≤ s.length}
    {lexeme : Lexeme s} (h : Lexeme.ofLength? kind cause s skipped n? pos le = .ok lexeme) :
    lexeme.kind = kind := by
  unfold Lexeme.ofLength? at h
  split at h
  · cases h
    rfl
  · cases h

theorem length_of_plain {c : Char} {rest : List Char} {lexeme : Lexeme (c :: rest)}
    (h : Lexeme.scan c rest = .ok lexeme) (hkind : lexeme.kind = .plain) : lexeme.length = 1 := by
  unfold Lexeme.scan at h
  split at h
  · rw [ofLength?_kind _ h] at hkind
    cases hkind
  · cases h
    cases hkind
  · cases h
    cases hkind
  · split at h
    · rw [ofLength?_kind _ h] at hkind
      cases hkind
    · cases h
      rfl
  · rw [ofLength?_kind _ h] at hkind
    cases hkind
  · rw [ofLength?_kind _ h] at hkind
    cases hkind
  · cases h
    rfl

theorem scan_plain {c : Char} (hc : c ∉ ['<', '#', '\x60', '@', '\x27', '"'])
    (rest : List Char) : Lexeme.scan c rest = .ok ⟨.plain, 1, Nat.one_pos, by simp⟩ := by
  unfold Lexeme.scan
  split <;> first | rfl | simp at hc

theorem scan_bracket {c : Char} (hc : isBracket c = true) (rest : List Char) :
    Lexeme.scan c rest = .ok ⟨.plain, 1, Nat.one_pos, by simp⟩ := by
  apply scan_plain
  intro hmem
  simp only [List.mem_cons, List.not_mem_nil, or_false] at hmem
  rcases hmem with rfl | rfl | rfl | rfl | rfl | rfl <;> cases hc

theorem isCloser_not_opener {c : Char} (h : isCloser c = true) : closer? c = none := by
  simp only [isCloser, Bool.or_eq_true, beq_iff_eq, or_assoc] at h
  rcases h with rfl | rfl | rfl <;> rfl

theorem isBracket_of_not_mem {c : Char} (h : c ∉ ['(', '[', '\x7b', ')', ']', '\x7d']) :
    isBracket c = false := by
  simp only [List.mem_cons, List.not_mem_nil, or_false, not_or] at h
  have hopener : closer? c = none := by
    unfold closer?
    split <;> simp_all
  simp [isBracket, hopener, isCloser, h]

theorem isCloser_of_closer? {c expected : Char} (h : closer? c = some expected) :
    isCloser expected = true := by
  unfold closer? at h
  split at h <;> cases h <;> rfl

/-! ## Closing brackets -/

section Steps

variable {expected c : Char} {outer rest : List Char} {offset : Nat} {lexeme : Lexeme (c :: rest)}

theorem closingFrom_lexeme (hscan : Lexeme.scan c rest = .ok lexeme)
    (hbracket : lexeme.kind = .plain → isBracket c = false) :
    closingFrom expected outer offset (c :: rest) =
      closingFrom expected outer (offset + lexeme.length) ((c :: rest).drop lexeme.length) := by
  rw [closingFrom.eq_def]
  simp only [scanAt_eq_ok_iff.2 hscan, bind, Except.bind]
  by_cases hkind : lexeme.kind = .plain
  · have hc := hbracket hkind
    simp only [isBracket, Bool.or_eq_false_iff, Option.isSome_eq_false_iff,
      Option.isNone_iff_eq_none] at hc
    rw [if_pos hkind, hc.1, hc.2, length_of_plain hscan hkind]
    rfl
  · rw [if_neg hkind]

theorem closingFrom_opener {inner : Char} (hscan : Lexeme.scan c rest = .ok lexeme)
    (hkind : lexeme.kind = .plain) (hopener : closer? c = some inner) :
    closingFrom expected outer offset (c :: rest) =
      closingFrom inner (expected :: outer) (offset + 1) rest := by
  rw [closingFrom.eq_def]
  simp only [scanAt_eq_ok_iff.2 hscan, bind, Except.bind]
  rw [if_pos hkind, hopener]

theorem closingFrom_closer (hscan : Lexeme.scan c rest = .ok lexeme)
    (hkind : lexeme.kind = .plain) (hcloser : isCloser c = true) :
    closingFrom expected outer offset (c :: rest) =
      if c = expected then
        match outer with
        | [] => .ok (some offset)
        | next :: outer => closingFrom next outer (offset + 1) rest
      else .error ⟨.wrongClosing expected c, offset⟩ := by
  rw [closingFrom.eq_def]
  simp only [scanAt_eq_ok_iff.2 hscan, bind, Except.bind]
  rw [if_pos hkind, isCloser_not_opener hcloser]
  simp only [hcloser, if_true]
  split
  · cases outer <;> rfl
  · rfl

end Steps

/-- The walk to the bracket that closes the outermost open one. -/
inductive Closes : Char → List Char → Nat → List Char → Nat → Prop
  | lexeme {expected c : Char} {outer rest : List Char} {offset stop : Nat}
      {lexeme : Lexeme (c :: rest)} (hscan : Lexeme.scan c rest = .ok lexeme)
      (hbracket : lexeme.kind = .plain → isBracket c = false)
      (h : Closes expected outer (offset + lexeme.length) ((c :: rest).drop lexeme.length) stop) :
      Closes expected outer offset (c :: rest) stop
  | opener {expected inner c : Char} {outer rest : List Char} {offset stop : Nat}
      {lexeme : Lexeme (c :: rest)} (hscan : Lexeme.scan c rest = .ok lexeme)
      (hkind : lexeme.kind = .plain) (hopener : closer? c = some inner)
      (h : Closes inner (expected :: outer) (offset + 1) rest stop) :
      Closes expected outer offset (c :: rest) stop
  | closer {expected next : Char} {outer rest : List Char} {offset stop : Nat}
      {lexeme : Lexeme (expected :: rest)} (hscan : Lexeme.scan expected rest = .ok lexeme)
      (hkind : lexeme.kind = .plain) (hcloser : isCloser expected = true)
      (h : Closes next outer (offset + 1) rest stop) :
      Closes expected (next :: outer) offset (expected :: rest) stop
  | outermost {expected : Char} {rest : List Char} {offset : Nat}
      {lexeme : Lexeme (expected :: rest)} (hscan : Lexeme.scan expected rest = .ok lexeme)
      (hkind : lexeme.kind = .plain) (hcloser : isCloser expected = true) :
      Closes expected [] offset (expected :: rest) offset

theorem Closes.closingFrom_eq {expected : Char} {outer s : List Char} {offset stop : Nat}
    (h : Closes expected outer offset s stop) :
    closingFrom expected outer offset s = .ok (some stop) := by
  induction h with
  | lexeme hscan hbracket _ ih =>
      rw [closingFrom_lexeme hscan hbracket]
      exact ih
  | opener hscan hkind hopener _ ih =>
      rw [closingFrom_opener hscan hkind hopener]
      exact ih
  | closer hscan hkind hcloser _ ih =>
      rw [closingFrom_closer hscan hkind hcloser, if_pos rfl]
      exact ih
  | outermost hscan hkind hcloser =>
      rw [closingFrom_closer hscan hkind hcloser, if_pos rfl]

theorem closes_of_closingFrom {expected : Char} {outer s : List Char} {offset stop : Nat}
    (h : closingFrom expected outer offset s = .ok (some stop)) :
    Closes expected outer offset s stop := by
  induction hlength : s.length using Nat.strong_induction_on
    generalizing expected outer offset s with
  | _ length ih =>
      subst hlength
      cases s with
      | nil =>
          rw [closingFrom.eq_def] at h
          cases h
      | cons c rest =>
          cases hscan : Lexeme.scan c rest with
          | error cause =>
              rw [closingFrom.eq_def] at h
              simp only [Lexeme.scanAt, hscan, bind, Except.bind] at h
              cases h
          | ok lexeme =>
              by_cases hbracket : lexeme.kind = .plain → isBracket c = false
              · rw [closingFrom_lexeme hscan hbracket] at h
                have hshorter := Lexeme.length_drop_lt lexeme
                exact .lexeme hscan hbracket (ih _ hshorter h rfl)
              · simp only [isBracket, Classical.not_imp, Bool.not_eq_false,
                  Bool.or_eq_true] at hbracket
                obtain ⟨hkind, hopener | hcloser⟩ := hbracket
                · obtain ⟨inner, hinner⟩ := Option.isSome_iff_exists.1 hopener
                  rw [closingFrom_opener hscan hkind hinner] at h
                  exact .opener hscan hkind hinner (ih _ (Nat.lt_succ_self _) h rfl)
                · rw [closingFrom_closer hscan hkind hcloser] at h
                  split at h
                  · next heq =>
                    subst heq
                    cases outer with
                    | nil =>
                        cases h
                        exact .outermost hscan hkind hcloser
                    | cons next outer =>
                        exact .closer hscan hkind hcloser (ih _ (Nat.lt_succ_self _) h rfl)
                  · cases h

theorem closingFrom_eq_iff {expected : Char} {outer s : List Char} {offset stop : Nat} :
    closingFrom expected outer offset s = .ok (some stop) ↔ Closes expected outer offset s stop :=
  ⟨closes_of_closingFrom, Closes.closingFrom_eq⟩

theorem closing_eq_iff {opening expected : Char} {inside : Cursor} {stop : Nat} :
    closing opening expected inside = .ok stop ↔
      Closes expected [] inside.offset inside.rest stop := by
  rw [← closingFrom_eq_iff, closing]
  cases closingFrom expected [] inside.offset inside.rest with
  | error fault => simp [bind, Except.bind]
  | ok found =>
      cases found with
      | none => simp [bind, Except.bind, throw, throwThe, MonadExceptOf.throw]
      | some offset => simp [bind, Except.bind, pure, Except.pure]

theorem Closes.bounds {expected : Char} {outer s : List Char} {offset stop : Nat}
    (h : Closes expected outer offset s stop) : offset ≤ stop ∧ stop < offset + s.length := by
  induction h with
  | @lexeme _ c _ rest _ _ lexeme _ _ _ ih =>
      have hle := lexeme.length_le
      simp only [List.length_drop, List.length_cons] at ih hle ⊢
      omega
  | opener _ _ _ _ ih =>
      simp only [List.length_cons]
      omega
  | closer _ _ _ _ ih =>
      simp only [List.length_cons]
      omega
  | outermost _ _ _ =>
      simp only [List.length_cons]
      omega

/-- The walk ends at the bracket that closes the outermost open one. -/
theorem Closes.head? {expected : Char} {outer s : List Char} {offset stop : Nat}
    (h : Closes expected outer offset s stop) :
    (s.drop (stop - offset)).head? = (expected :: outer).getLast? := by
  induction h with
  | @lexeme _ c _ rest offset stop lexeme _ _ h ih =>
      have hbounds := h.bounds.1
      have hsum : lexeme.length + (stop - (offset + lexeme.length)) = stop - offset := by omega
      rw [List.drop_drop, hsum] at ih
      exact ih
  | @opener _ _ c _ rest offset stop _ _ _ _ h ih =>
      have hbounds := h.bounds.1
      have hsum : stop - offset = stop - (offset + 1) + 1 := by omega
      rw [hsum, List.drop_succ_cons, ih, List.getLast?_cons_cons]
  | @closer _ _ _ rest offset stop _ _ _ _ h ih =>
      have hbounds := h.bounds.1
      have hsum : stop - offset = stop - (offset + 1) + 1 := by omega
      rw [hsum, List.drop_succ_cons, ih, List.getLast?_cons_cons]
  | outermost =>
      rw [Nat.sub_self]
      rfl

theorem Closes.unique {expected : Char} {outer s : List Char} {offset stop stop' : Nat}
    (h : Closes expected outer offset s stop) (h' : Closes expected outer offset s stop') :
    stop = stop' := by
  have heq := h.closingFrom_eq.symm.trans h'.closingFrom_eq
  cases heq
  rfl

/-- Before the outer brackets close, the inner ones do. -/
theorem Closes.split {expected next : Char} (inner : List Char) {outer s : List Char}
    {offset stop : Nat}
    (h : Closes expected (inner ++ next :: outer) offset s stop) :
    ∃ close, Closes expected inner offset s close ∧
      Closes next outer (close + 1) (s.drop (close + 1 - offset)) stop := by
  generalize hstack : inner ++ next :: outer = stack at h
  induction h generalizing inner with
  | @lexeme _ c _ rest offset _ lexeme hscan hbracket _ ih =>
      obtain ⟨close, hinner, houter⟩ := ih inner hstack
      have hle := hinner.bounds.1
      have hdrop : lexeme.length + (close + 1 - (offset + lexeme.length)) = close + 1 - offset := by
        omega
      rw [List.drop_drop, hdrop] at houter
      exact ⟨close, .lexeme hscan hbracket hinner, houter⟩
  | @opener expected _ c _ rest offset _ _ hscan hkind hopener _ ih =>
      obtain ⟨close, hinner, houter⟩ := ih (expected :: inner) (by rw [← hstack]; rfl)
      have hle := hinner.bounds.1
      have hdrop : close + 1 - offset = (close + 1 - (offset + 1)) + 1 := by omega
      refine ⟨close, .opener hscan hkind hopener hinner, ?_⟩
      rw [hdrop, List.drop_succ_cons]
      exact houter
  | @closer expected _ _ rest offset _ _ hscan hkind hcloser h ih =>
      cases inner with
      | nil =>
          cases hstack
          refine ⟨offset, .outermost hscan hkind hcloser, ?_⟩
          rw [Nat.add_sub_cancel_left, List.drop_succ_cons, List.drop_zero]
          exact h
      | cons _ inner =>
          cases hstack
          obtain ⟨close, hinner, houter⟩ := ih inner rfl
          have hle := hinner.bounds.1
          have hdrop : close + 1 - offset = (close + 1 - (offset + 1)) + 1 := by omega
          refine ⟨close, .closer hscan hkind hcloser hinner, ?_⟩
          rw [hdrop, List.drop_succ_cons]
          exact houter
  | outermost => cases inner <;> cases hstack

/-- After the inner brackets close, the outer ones do. -/
theorem Closes.join {expected next : Char} {inner outer s : List Char} {offset close stop : Nat}
    (h : Closes expected inner offset s close)
    (houter : Closes next outer (close + 1) (s.drop (close + 1 - offset)) stop) :
    Closes expected (inner ++ next :: outer) offset s stop := by
  induction h with
  | @lexeme _ c _ rest offset close lexeme hscan hbracket hinner ih =>
      have hle := hinner.bounds.1
      have hdrop : close + 1 - offset = lexeme.length + (close + 1 - (offset + lexeme.length)) := by
        omega
      rw [hdrop, ← List.drop_drop] at houter
      exact .lexeme hscan hbracket (ih houter)
  | @opener expected _ c _ rest offset close _ hscan hkind hopener hinner ih =>
      have hle := hinner.bounds.1
      have hdrop : close + 1 - offset = (close + 1 - (offset + 1)) + 1 := by omega
      rw [hdrop, List.drop_succ_cons] at houter
      exact .opener hscan hkind hopener (ih houter)
  | @closer expected _ _ rest offset close _ hscan hkind hcloser hinner ih =>
      have hle := hinner.bounds.1
      have hdrop : close + 1 - offset = (close + 1 - (offset + 1)) + 1 := by omega
      rw [hdrop, List.drop_succ_cons] at houter
      exact .closer hscan hkind hcloser (ih houter)
  | @outermost expected rest offset _ hscan hkind hcloser =>
      rw [Nat.add_sub_cancel_left, List.drop_succ_cons, List.drop_zero] at houter
      exact .closer hscan hkind hcloser houter

/-! ## Lexemes and groups -/

/-- Code between two places: lexemes that are no brackets, all of an allowed kind, and groups from a
bracket to the one that closes it. -/
inductive Walk (allowed : LexemeKind → Char → Prop) : Nat → List Char → Nat → List Char → Prop
  | nil (offset : Nat) (s : List Char) : Walk allowed offset s offset s
  | lexeme {c : Char} {rest s : List Char} {offset stop : Nat} {lexeme : Lexeme (c :: rest)}
      (hscan : Lexeme.scan c rest = .ok lexeme)
      (hbracket : lexeme.kind = .plain → isBracket c = false) (hallowed : allowed lexeme.kind c)
      (h : Walk allowed (offset + lexeme.length) ((c :: rest).drop lexeme.length) stop s) :
      Walk allowed offset (c :: rest) stop s
  | group {c expected : Char} {rest s : List Char} {offset close stop : Nat}
      {lexeme : Lexeme (c :: rest)} (hscan : Lexeme.scan c rest = .ok lexeme)
      (hkind : lexeme.kind = .plain) (hopener : closer? c = some expected)
      (hclose : Closes expected [] (offset + 1) rest close)
      (h : Walk allowed (close + 1) (rest.drop (close - offset)) stop s) :
      Walk allowed offset (c :: rest) stop s

def anyCode (_ : LexemeKind) (_ : Char) : Prop := True

/-- Code without a comma outside groups. -/
def noComma (kind : LexemeKind) (c : Char) : Prop := kind = .plain → c ≠ ','

namespace Walk

variable {allowed : LexemeKind → Char → Prop} {s s' : List Char} {offset stop : Nat}

theorem trans {s'' : List Char} {last : Nat} (h : Walk allowed offset s stop s')
    (h' : Walk allowed stop s' last s'') : Walk allowed offset s last s'' := by
  induction h with
  | nil => exact h'
  | lexeme hscan hbracket hallowed _ ih => exact .lexeme hscan hbracket hallowed (ih h')
  | group hscan hkind hopener hclose _ ih => exact .group hscan hkind hopener hclose (ih h')

theorem bounds (h : Walk allowed offset s stop s') :
    offset ≤ stop ∧ stop ≤ offset + s.length ∧ s' = s.drop (stop - offset) := by
  induction h with
  | nil => simp
  | @lexeme c rest _ offset stop lexeme _ _ _ _ ih =>
      obtain ⟨hle, hlength, hdrop⟩ := ih
      have hlexeme := lexeme.length_le
      have hsum : lexeme.length + (stop - (offset + lexeme.length)) = stop - offset := by omega
      rw [List.length_drop] at hlength
      rw [List.drop_drop, hsum] at hdrop
      exact ⟨by omega, by omega, hdrop⟩
  | @group c _ rest _ offset close stop _ _ _ _ hclose _ ih =>
      obtain ⟨hle, hlength, hdrop⟩ := ih
      obtain ⟨hfirst, hlast⟩ := hclose.bounds
      have hsum : close - offset + (stop - (close + 1)) + 1 = stop - offset := by omega
      rw [List.length_drop] at hlength
      rw [List.drop_drop] at hdrop
      rw [List.length_cons, ← hsum, List.drop_succ_cons]
      exact ⟨by omega, by omega, hdrop⟩

theorem le (h : Walk allowed offset s stop s') : offset ≤ stop := h.bounds.1

theorem drop_eq (h : Walk allowed offset s stop s') : s.drop (stop - offset) = s' :=
  h.bounds.2.2.symm

theorem weaken {allowed' : LexemeKind → Char → Prop}
    (hallowed : ∀ kind c, allowed kind c → allowed' kind c) (h : Walk allowed offset s stop s') :
    Walk allowed' offset s stop s' := by
  induction h with
  | nil => exact .nil _ _
  | lexeme hscan hbracket hkind _ ih => exact .lexeme hscan hbracket (hallowed _ _ hkind) ih
  | group hscan hkind hopener hclose _ ih => exact .group hscan hkind hopener hclose ih

theorem closes {expected : Char} {outer : List Char} {close : Nat}
    (h : Walk allowed offset s stop s') (hclose : Closes expected outer stop s' close) :
    Closes expected outer offset s close := by
  induction h with
  | nil => exact hclose
  | lexeme hscan hbracket _ _ ih => exact .lexeme hscan hbracket (ih hclose)
  | @group c inner rest _ offset closeInner stop _ hscan hkind hopener hinner hwalk ih =>
      have hle := hinner.bounds.1
      have hdrop : closeInner - offset = closeInner + 1 - (offset + 1) := by omega
      have houter := ih hclose
      rw [hdrop] at houter
      exact .opener hscan hkind hopener (hinner.join houter)

end Walk

theorem Closes.walk {expected : Char} {s : List Char} {offset stop : Nat}
    (h : Closes expected [] offset s stop) :
    Walk anyCode offset s stop (s.drop (stop - offset)) := by
  induction hlength : s.length using Nat.strong_induction_on generalizing offset s with
  | _ length ih =>
      subst hlength
      cases h with
      | @lexeme _ c _ rest _ _ lexeme hscan hbracket h =>
          have hle := h.bounds.1
          have hsum : lexeme.length + (stop - (offset + lexeme.length)) = stop - offset := by omega
          have hwalk := ih _ (Lexeme.length_drop_lt lexeme) h rfl
          rw [List.drop_drop, hsum] at hwalk
          exact .lexeme hscan hbracket trivial hwalk
      | @opener _ inner c _ rest _ _ _ hscan hkind hopener h =>
          obtain ⟨close, hinner, houter⟩ := h.split []
          obtain ⟨hfirst, hlast⟩ := hinner.bounds
          have hle := houter.bounds.1
          have hdrop : close + 1 - (offset + 1) = close - offset := by omega
          have hsum : close - offset + (stop - (close + 1)) + 1 = stop - offset := by omega
          rw [hdrop] at houter
          have hshorter : (rest.drop (close - offset)).length < (c :: rest).length := by
            rw [List.length_drop, List.length_cons]
            omega
          have hwalk := ih _ hshorter houter rfl
          rw [List.drop_drop] at hwalk
          rw [← hsum, List.drop_succ_cons]
          exact .group hscan hkind hopener hinner hwalk
      | outermost hscan hkind hcloser =>
          rw [Nat.sub_self, List.drop_zero]
          exact .nil _ _

/-! ## Splitting along walks -/

section Steps

variable {stop offset : Nat} {part : Cursor} {c : Char} {rest : List Char}
  {lexeme : Lexeme (c :: rest)}

theorem splitFrom_past {s : List Char} (h : stop ≤ offset) :
    splitFrom stop part offset s = .ok [⟨part, stop⟩] := by
  cases s with
  | nil => rw [splitFrom]
  | cons c rest => rw [splitFrom, if_neg (Nat.not_lt.mpr h)]

theorem splitFrom_stop (stop : Nat) (part : Cursor) (s : List Char) :
    splitFrom stop part stop s = .ok [⟨part, stop⟩] :=
  splitFrom_past (Nat.le_refl stop)

theorem splitFrom_lexeme (hscan : Lexeme.scan c rest = .ok lexeme)
    (hbracket : lexeme.kind = .plain → isBracket c = false) (hcomma : noComma lexeme.kind c)
    (hlt : offset < stop) :
    splitFrom stop part offset (c :: rest) =
      splitFrom stop part (offset + lexeme.length) ((c :: rest).drop lexeme.length) := by
  rw [splitFrom, if_pos hlt]
  simp only [scanAt_eq_ok_iff.2 hscan, bind, Except.bind]
  by_cases hkind : lexeme.kind = .plain
  · have hc := hbracket hkind
    simp only [isBracket, Bool.or_eq_false_iff, Option.isSome_eq_false_iff,
      Option.isNone_iff_eq_none] at hc
    rw [if_pos hkind, hc.1, length_of_plain hscan hkind]
    simp only [if_neg (hcomma hkind)]
    rfl
  · rw [if_neg hkind]

theorem splitFrom_comma (hlt : offset < stop) :
    splitFrom stop part offset (',' :: rest) =
      (splitFrom stop ⟨offset + 1, rest⟩ (offset + 1) rest).map (⟨part, offset⟩ :: ·) := by
  have hscan := scan_plain (c := ',') (by decide) rest
  rw [splitFrom, if_pos hlt]
  simp only [scanAt_eq_ok_iff.2 hscan, bind, Except.bind]
  cases splitFrom stop ⟨offset + 1, rest⟩ (offset + 1) rest <;> rfl

theorem splitFrom_group {expected : Char} {close : Nat} (hscan : Lexeme.scan c rest = .ok lexeme)
    (hkind : lexeme.kind = .plain) (hopener : closer? c = some expected)
    (hclose : Closes expected [] (offset + 1) rest close) (hlt : offset < stop) :
    splitFrom stop part offset (c :: rest) =
      splitFrom stop part (close + 1) (rest.drop (close - offset)) := by
  have hclosing : closing c expected ⟨offset + 1, rest⟩ = .ok close := closing_eq_iff.2 hclose
  rw [splitFrom, if_pos hlt]
  simp only [scanAt_eq_ok_iff.2 hscan, bind, Except.bind]
  rw [if_pos hkind, hopener]
  simp only [hclosing]

end Steps

/-- No part ends within a walk without commas. -/
theorem Walk.splitFrom_eq {s s' : List Char} {offset place stop : Nat} {part : Cursor}
    (h : Walk noComma offset s place s') (hstop : place ≤ stop) :
    splitFrom stop part offset s = splitFrom stop part place s' := by
  induction h with
  | nil => rfl
  | @lexeme _ _ _ _ _ lexeme hscan hbracket hcomma h ih =>
      have hpos := lexeme.length_pos
      have hle := h.le
      rw [splitFrom_lexeme hscan hbracket hcomma (by omega)]
      exact ih hstop
  | group hscan hkind hopener hclose h ih =>
      have hclosing := hclose.bounds.1
      have hle := h.le
      rw [splitFrom_group hscan hkind hopener hclose (by omega)]
      exact ih hstop

/-- The parts of the code from a cursor up to `stop`, each but the last up to a comma. -/
inductive Parts (stop : Nat) : Cursor → List Part → Prop
  | last {start : Cursor} {s : List Char}
      (hwalk : Walk anyCode start.offset start.rest stop s) : Parts stop start [⟨start, stop⟩]
  | more {start : Cursor} {comma : Nat} {rest : List Char} {parts : List Part}
      (hwalk : Walk anyCode start.offset start.rest comma (',' :: rest)) (hlt : comma < stop)
      (h : Parts stop ⟨comma + 1, rest⟩ parts) : Parts stop start (⟨start, comma⟩ :: parts)

theorem parts_of_splitFrom {stop offset : Nat} {part : Cursor} {s s' : List Char}
    {parts : List Part} (hpart : Walk anyCode part.offset part.rest offset s)
    (hwalk : Walk anyCode offset s stop s') (h : splitFrom stop part offset s = .ok parts) :
    Parts stop part parts := by
  induction hwalk generalizing part parts with
  | nil offset s =>
      rw [splitFrom_stop] at h
      cases h
      exact .last hpart
  | @lexeme c rest _ offset stop lexeme hscan hbracket hallowed hwalk ih =>
      have hpos := lexeme.length_pos
      have hle := hwalk.le
      have hnext := hpart.trans (.lexeme hscan hbracket trivial (.nil _ _))
      by_cases hcomma : noComma lexeme.kind c
      · rw [splitFrom_lexeme hscan hbracket hcomma (by omega)] at h
        exact ih hnext h
      · simp only [noComma, Classical.not_imp, not_not] at hcomma
        obtain ⟨hkind, rfl⟩ := hcomma
        rw [length_of_plain hscan hkind] at hle hwalk ih
        rw [splitFrom_comma (by omega)] at h
        obtain ⟨more, hmore, hparts⟩ : ∃ more,
            splitFrom stop ⟨offset + 1, rest⟩ (offset + 1) rest = .ok more ∧
              ⟨part, offset⟩ :: more = parts := by
          cases hmore : splitFrom stop ⟨offset + 1, rest⟩ (offset + 1) rest with
          | error fault =>
              rw [hmore] at h
              cases h
          | ok more =>
              rw [hmore] at h
              cases h
              exact ⟨more, rfl, rfl⟩
        subst hparts
        exact .more hpart (by omega) (ih (.nil _ _) hmore)
  | group hscan hkind hopener hclose hwalk ih =>
      have hclosing := hclose.bounds.1
      have hle := hwalk.le
      have hnext := hpart.trans (.group hscan hkind hopener hclose (.nil _ _))
      rw [splitFrom_group hscan hkind hopener hclose (by omega)] at h
      exact ih hnext h

theorem parts_of_splitTopLevel {start : Cursor} {stop : Nat} {s : List Char} {parts : List Part}
    (hwalk : Walk anyCode start.offset start.rest stop s)
    (h : splitTopLevel start stop = .ok parts) : Parts stop start parts :=
  parts_of_splitFrom (.nil _ _) hwalk h

end DscAudit.PowerShell
