import DscAudit.Proofs.PowerShell.Arguments

/-!
# Parameter blocks are read as they are written

The text of a written parameter block is read as its meaning: names, arguments, values, defaults and
the spans of all of them.
-/

namespace DscAudit.PowerShell

/-! ## Attributes -/

namespace IsName

variable {pieces : List Piece}

theorem ordinary {c : Char} (h : Text.isWordChar c = true ∨ c = '.') :
    IsOrdinary c ∧ isBracket c = false ∧ c ≠ ',' ∧ Text.isBlank c = false := by
  rcases h with h | rfl
  · obtain ⟨hordinary, hbracket, hcomma⟩ := ordinary_of_isWordChar h
    exact ⟨hordinary, hbracket, hcomma, Text.isBlank_of_isWordChar h⟩
  · exact ⟨by decide, by decide, by decide, by decide⟩

theorem balanced (h : IsName pieces) : Balanced true pieces := by
  induction h with
  | nil => exact .nil
  | char hchar _ ih =>
      exact .char (ordinary hchar).2.1 nofun ih
  | group hinside _ ih => exact .group rfl hinside ih

/-- A name ends with a character or a bracket, behind which anything may stand. -/
theorem fits (h : IsName pieces) (hfits : Fits pieces []) (behind : List Char) :
    Fits pieces behind := by
  induction h with
  | nil => trivial
  | char hchar _ ih => exact ⟨ends_ordinary (ordinary hchar).1 _, ih hfits.2⟩
  | @group _ hc inside pieces hinside _ ih =>
      obtain ⟨_, hfits⟩ := hfits
      obtain ⟨hfitsInside, _, hfitsBehind⟩ := fits_append.1 hfits
      refine ⟨ends_ordinary (by decide) _, fits_append.2 ⟨?_,
        ends_ordinary (by decide) _, ih hfitsBehind⟩⟩
      rw [textOf_cons, List.append_assoc] at hfitsInside ⊢
      exact fits_of_next hfitsInside

theorem isTrivia_head (h : IsName pieces) :
    ∀ piece ∈ pieces.head?, piece.isTrivia = false := by
  cases h with
  | nil => nofun
  | char hchar _ =>
      rintro _ ⟨⟩
      exact char_not_trivia (ordinary hchar).2.2.2
  | group _ _ =>
      rintro _ ⟨⟩
      exact char_not_trivia (by decide)

theorem last (h : IsName pieces) (hne : pieces ≠ []) :
    ∃ c, (textOf pieces).getLast? = some c ∧ Text.isBlank c = false := by
  induction h with
  | nil => exact absurd rfl hne
  | @char c hc pieces hchar _ ih =>
      by_cases hpieces : pieces = []
      · subst hpieces
        exact ⟨c, rfl, (ordinary hchar).2.2.2⟩
      · rw [textOf_cons, List.getLast?_append_of_ne_nil _ (textOf_ne_nil hpieces)]
        exact ih hpieces
  | @group _ hc inside pieces hinside _ ih =>
      have hclose : textOf (Piece.char ']' hc :: pieces) = [']'] ++ textOf pieces := rfl
      rw [← List.cons_append, textOf_append, hclose,
        List.getLast?_append_of_ne_nil _ (by simp)]
      by_cases hpieces : pieces = []
      · subst hpieces
        exact ⟨']', rfl, by decide⟩
      · rw [List.getLast?_append_of_ne_nil _ (textOf_ne_nil hpieces)]
        exact ih hpieces

end IsName

/-! ### Finding the argument list -/

theorem findArguments_past {stop offset : Nat} (h : stop ≤ offset) (s : List Char) :
    findArguments stop offset s = .ok none := by
  cases s with
  | nil => rw [findArguments]
  | cons c rest => rw [findArguments, if_neg (Nat.not_lt.mpr h)]

theorem findArguments_other {c : Char} {rest : List Char} {offset stop : Nat}
    (hround : c ≠ '(') (hsquare : c ≠ '[') (hlt : offset < stop) :
    findArguments stop offset (c :: rest) = findArguments stop (offset + 1) rest := by
  rw [findArguments, if_pos hlt, if_neg hround, if_neg hsquare]

theorem findArguments_paren {rest : List Char} {offset stop : Nat} (hlt : offset < stop) :
    findArguments stop offset ('(' :: rest) = .ok (some ⟨offset, '(' :: rest⟩) := by
  rw [findArguments, if_pos hlt, if_pos rfl]

theorem findArguments_square {stop offset : Nat} (hlt : offset < stop) (rest : List Char) :
    findArguments stop offset ('[' :: rest) = (do
      let close ← closing '[' ']' ⟨offset + 1, rest⟩
      findArguments stop (close + 1) (rest.drop (close - offset))) := by
  rw [findArguments, if_pos hlt, if_neg (by decide), if_pos rfl]

theorem findArguments_append {text behind : List Char} {offset stop : Nat} (hround : '(' ∉ text)
    (hsquare : '[' ∉ text) (hstop : offset + text.length ≤ stop) :
    findArguments stop offset (text ++ behind) = findArguments stop (offset + text.length) behind := by
  induction text generalizing offset with
  | nil => rfl
  | cons c text ih =>
      rw [List.mem_cons, not_or] at hround hsquare
      rw [List.length_cons] at hstop
      rw [List.cons_append, findArguments_other (Ne.symm hround.1) (Ne.symm hsquare.1) (by omega),
        ih hround.2 hsquare.2 (by omega), List.length_cons, Nat.add_assoc, Nat.add_comm 1]

theorem findArguments_blanks {blanks behind : List Char} {offset stop : Nat}
    (hblanks : ∀ c ∈ blanks, Text.isBlank c = true) (hstop : offset + blanks.length ≤ stop) :
    findArguments stop offset (blanks ++ behind) =
      findArguments stop (offset + blanks.length) behind :=
  findArguments_append (fun hround => absurd (hblanks _ hround) (by decide))
    (fun hsquare => absurd (hblanks _ hsquare) (by decide)) hstop

theorem IsName.findArguments {pieces : List Piece} (h : IsName pieces) {behind : List Char}
    (hfits : Fits pieces behind) {offset stop : Nat}
    (hstop : offset + (textOf pieces).length ≤ stop) :
    PowerShell.findArguments stop offset (textOf pieces ++ behind) =
      PowerShell.findArguments stop (offset + (textOf pieces).length) behind := by
  induction h generalizing offset with
  | nil => rfl
  | @char c hc pieces hchar _ ih =>
      have hbracket := (ordinary hchar).2.1
      rw [textOf_cons, List.length_append] at hstop
      have hlength : (Piece.char c hc).text.length = 1 := rfl
      rw [hlength] at hstop
      have hnext := @ih hfits.2 (offset + 1) (by omega)
      rw [Nat.add_assoc, Nat.add_comm 1] at hnext
      have hstep := @findArguments_other c (textOf pieces ++ behind) offset stop
        (by rintro rfl; cases hbracket) (by rintro rfl; cases hbracket) (by omega)
      exact hstep.trans hnext
  | @group ho hc inside pieces hinside _ ih =>
      obtain ⟨_, hfits⟩ := hfits
      obtain ⟨hfitsInside, _, hfitsBehind⟩ := fits_append.1 hfits
      have htext : textOf (Piece.char '[' ho :: (inside ++ Piece.char ']' hc :: pieces)) ++ behind =
          '[' :: (textOf inside ++ ']' :: (textOf pieces ++ behind)) := by
        simp [Piece.char]
      have hlength :
          (textOf (Piece.char '[' ho :: (inside ++ Piece.char ']' hc :: pieces))).length =
            (textOf inside).length + (textOf pieces).length + 2 := by
        simp only [textOf_cons, textOf_append, List.length_append, Piece.char, List.length_cons,
          List.length_nil]
        omega
      have hclosing : closing '[' ']'
          ⟨offset + 1, textOf inside ++ ']' :: (textOf pieces ++ behind)⟩ =
          .ok (offset + 1 + (textOf inside).length) := hinside.closing rfl hfitsInside (offset + 1)
      rw [hlength] at hstop ⊢
      have hnext := @ih hfitsBehind (offset + 1 + (textOf inside).length + 1) (by omega)
      have hsum : offset + 1 + (textOf inside).length + 1 + (textOf pieces).length =
          offset + ((textOf inside).length + (textOf pieces).length + 2) := by omega
      rw [hsum] at hnext
      rw [htext, findArguments_square (by omega), hclosing]
      simp only [bind, Except.bind]
      rw [drop_behind]
      exact hnext

/-! ### The name of an attribute -/

namespace Name

variable (name : Name) {behind : List Char}

theorem length_pos : 0 < name.text.length :=
  List.length_pos_iff.2 (textOf_ne_nil name.ne_nil)

theorem skip (leading : Gap) {offset stop : Nat}
    (hstop : offset + leading.text.length + name.text.length ≤ stop) :
    skipTriviaFrom stop offset (leading.text ++ (name.text ++ behind)) =
      .ok ⟨offset + leading.text.length, name.text ++ behind⟩ := by
  have hpos := name.length_pos
  have hfits := name.isName.fits name.fits behind
  have htrivia := name.isName.isTrivia_head
  rw [leading.skip _ (by omega)]
  unfold Name.text at hpos hstop ⊢
  obtain ⟨piece, rest, hpieces⟩ := List.exists_cons_of_ne_nil name.ne_nil
  rw [hpieces] at hfits htrivia hpos hstop ⊢
  rw [textOf_cons, List.append_assoc]
  exact skipTriviaFrom_code hfits.1 (htrivia piece rfl) (by omega)

theorem findArguments (blanks : Blanks) {offset stop : Nat}
    (hstop : offset + name.text.length + blanks.text.length ≤ stop) :
    PowerShell.findArguments stop offset (name.text ++ (blanks.text ++ behind)) =
      PowerShell.findArguments stop (offset + name.text.length + blanks.text.length) behind := by
  have hname : offset + (textOf name.pieces).length ≤ stop := by
    have hlength : (textOf name.pieces).length = name.text.length := rfl
    omega
  exact (name.isName.findArguments (name.isName.fits name.fits _) hname).trans
    (findArguments_blanks blanks.isBlank hstop)

theorem trimEnd (blanks : Blanks) (offset : Nat) :
    Text.trimEnd (Cursor.textTo ⟨offset, name.text ++ (blanks.text ++ behind)⟩
      (offset + name.text.length + blanks.text.length)) = name.text := by
  obtain ⟨c, hlast, hc⟩ := name.isName.last name.ne_nil
  have hcount : offset + name.text.length + blanks.text.length - offset =
      (name.text ++ blanks.text).length := by
    rw [List.length_append]
    omega
  rw [Cursor.textTo, hcount, ← List.append_assoc, List.take_left]
  exact Text.trimEnd_append hlast hc blanks.isBlank

end Name

/-! ### The first of some attributes -/

theorem advance_one {here : Cursor} {c : Char} {rest : List Char} (hrest : here.rest = c :: rest) :
    here.advance 1 = ⟨here.offset + 1, rest⟩ := by
  rw [Cursor.advance, hrest]
  rfl

theorem advance_group {here : Cursor} {c : Char} {rest : List Char} {close : Nat}
    (hrest : here.rest = c :: rest) (hlt : here.offset < close) :
    here.advance (1 + (close - here.offset)) = ⟨close + 1, rest.drop (close - here.offset)⟩ := by
  have hsum : here.offset + (1 + (close - here.offset)) = close + 1 := by omega
  rw [Cursor.advance, hsum, hrest, Nat.add_comm 1, List.drop_succ_cons]

theorem readAttributes_square {stop : Nat} {here : Cursor} {rest : List Char}
    (hrest : here.rest = '[' :: rest) (hlt : here.offset < stop) :
    readAttributes stop here = (do
      let close ← closing '[' ']' ⟨here.offset + 1, rest⟩
      let first ← readAttribute here close
      let next ← skipTrivia (here.advance (1 + (close - here.offset))) stop
      let (more, behind) ← readAttributes stop next
      return (first :: more, behind)) := by
  obtain ⟨offset, s⟩ := here
  obtain rfl : s = '[' :: rest := hrest
  rw [readAttributes.eq_def]
  simp only
  rw [if_pos hlt]
  refine bind_congr fun close => bind_congr fun first => ?_
  split
  · next heq =>
    rw [heq]
    rfl
  · next heq =>
    rw [heq]
    rfl

/-! ### An attribute as it is written -/

namespace WrittenAttribute

theorem fitsItems {arguments : Listed WrittenArgument}
    (h : arguments.Apart WrittenArgument.pieces) : FitsItems WrittenArgument.pieces arguments :=
  fun entry hentry _ hbehind => entry.item.fits (h entry hentry) hbehind

theorem blanks_fits (blanks : Blanks) (behind : List Char) : Fits blanks.pieces behind :=
  fits_chars (fun c hc => (plain_of_isBlank (blanks.isBlank c hc)).1) behind

theorem blanks_balanced (blanks : Blanks) : Balanced true blanks.pieces := by
  refine (balanced_chars ?_ false).weaken
  intro c hc
  refine ⟨(plain_of_isBlank (blanks.isBlank c hc)).2, ?_⟩
  rintro rfl
  have hblank := blanks.isBlank _ hc
  revert hblank
  decide

theorem inside_fits {owner : WrittenAttribute} (h : owner.Apart) (behind : List Char) :
    Fits owner.inside behind := by
  cases owner with
  | constraint leading name blanks =>
      exact fits_append.2 ⟨leading.fits _,
        fits_append.2 ⟨name.isName.fits name.fits _, blanks_fits blanks _⟩⟩
  | call leading name blanks arguments trailing =>
      have harguments : Fits (arguments.pieces WrittenArgument.pieces)
          (textOf (Piece.closeRound :: trailing.pieces) ++ behind) :=
        Listed.fits (fitsItems h) (endsItem_close _)
      refine fits_append.2 ⟨leading.fits _, fits_append.2 ⟨name.isName.fits name.fits _,
        fits_append.2 ⟨blanks_fits blanks _, ends_ordinary (by decide) _, ?_⟩⟩⟩
      exact fits_append.2 ⟨harguments, ends_ordinary (by decide) _,
        trailing.fits _⟩

theorem inside_balanced (owner : WrittenAttribute) : Balanced true owner.inside := by
  cases owner with
  | constraint leading name blanks =>
      exact (leading.balanced true).append (name.isName.balanced.append (blanks_balanced blanks))
  | call leading name blanks arguments trailing =>
      have hlist : Balanced true (Piece.openRound :: (arguments.pieces WrittenArgument.pieces ++
          Piece.closeRound :: trailing.pieces)) :=
        .group rfl (Listed.balanced WrittenArgument.balanced) (trailing.balanced true)
      exact (leading.balanced true).append
        (name.isName.balanced.append ((blanks_balanced blanks).append hlist))

theorem fits {owner : WrittenAttribute} (h : owner.Apart) (behind : List Char) :
    Fits owner.pieces behind :=
  ⟨ends_ordinary (by decide) _,
    fits_append.2 ⟨inside_fits h _, ends_ordinary (by decide) _, trivial⟩⟩

theorem balanced (owner : WrittenAttribute) : Balanced false owner.pieces :=
  .group rfl owner.inside_balanced .nil

theorem textOf_pieces (owner : WrittenAttribute) (behind : List Char) :
    textOf owner.pieces ++ behind = '[' :: (textOf owner.inside ++ ']' :: behind) := by
  simp [pieces, Piece.openSquare, Piece.closeSquare, Piece.char]

theorem length_pieces (owner : WrittenAttribute) :
    (textOf owner.pieces).length = (textOf owner.inside).length + 2 := by
  simp [pieces, Piece.openSquare, Piece.closeSquare, Piece.char]

theorem readAttribute_constraint (leading : Gap) (name : Name) (blanks : Blanks) (offset : Nat)
    (behind : List Char) :
    readAttribute ⟨offset, textOf (constraint leading name blanks).pieces ++ behind⟩
        (offset + 1 + (textOf (constraint leading name blanks).inside).length) =
      .ok ((constraint leading name blanks).meaning offset) := by
  have hlength := (constraint leading name blanks).length_pieces
  rw [textOf_pieces]
  have hinside : textOf (constraint leading name blanks).inside =
      leading.text ++ (name.text ++ blanks.text) := by
    simp [inside, Gap.text, Name.text, Blanks.pieces]
  rw [hinside] at hlength ⊢
  generalize hclose : offset + 1 + (leading.text ++ (name.text ++ blanks.text)).length = close
  simp only [List.length_append] at hclose hlength
  have hstop : offset + 1 + leading.text.length + name.text.length + blanks.text.length =
      close := by omega
  have hskip := @Name.skip name (blanks.text ++ ']' :: behind) leading (offset + 1) close
    (by omega)
  have hfind := @Name.findArguments name (']' :: behind) blanks
    (offset + 1 + leading.text.length) close (by omega)
  have htrim := @Name.trimEnd name (']' :: behind) blanks (offset + 1 + leading.text.length)
  have hspan : offset + (leading.text.length + (name.text.length + blanks.text.length) + 2) =
      close + 1 := by omega
  rw [hstop, findArguments_past (Nat.le_refl _)] at hfind
  rw [hstop] at htrim
  simp only [List.append_assoc, readAttribute, skipTrivia, Cursor.advance, List.drop_succ_cons,
    List.drop_zero, hskip, bind, Except.bind, hfind, htrim]
  rw [meaning, hlength, hspan]
  rfl

theorem readAttribute_call {arguments : Listed WrittenArgument}
    (h : arguments.Apart WrittenArgument.pieces) (leading : Gap) (name : Name) (blanks : Blanks)
    (trailing : Gap) (offset : Nat) (behind : List Char) :
    readAttribute ⟨offset, textOf (call leading name blanks arguments trailing).pieces ++ behind⟩
        (offset + 1 + (textOf (call leading name blanks arguments trailing).inside).length) =
      .ok ((call leading name blanks arguments trailing).meaning offset) := by
  have hlength := (call leading name blanks arguments trailing).length_pieces
  rw [textOf_pieces]
  have hinside : textOf (call leading name blanks arguments trailing).inside =
      leading.text ++ (name.text ++ (blanks.text ++
        '(' :: (textOf (arguments.pieces WrittenArgument.pieces) ++
          ')' :: trailing.text))) := by
    simp [inside, Gap.text, Name.text, Blanks.pieces, Piece.openRound, Piece.closeRound,
      Piece.char]
  rw [hinside] at hlength ⊢
  have hfits : Fits (arguments.pieces WrittenArgument.pieces)
      (')' :: (trailing.text ++ ']' :: behind)) := Listed.fits (fitsItems h) (endsItem_close _)
  have hbalanced : Balanced true (arguments.pieces WrittenArgument.pieces) :=
    Listed.balanced WrittenArgument.balanced
  generalize hopening : offset + 1 + leading.text.length + name.text.length +
    blanks.text.length = opening
  obtain ⟨parts, found, hparts, hfound, hmeanings⟩ :=
    @readArguments_list arguments (')' :: (trailing.text ++ ']' :: behind)) (opening + 1) hfits
  have hclosing : closing '(' ')' ⟨opening + 1,
      textOf (arguments.pieces WrittenArgument.pieces) ++
        ')' :: (trailing.text ++ ']' :: behind)⟩ =
      .ok (opening + 1 + (textOf (arguments.pieces WrittenArgument.pieces)).length) :=
    hbalanced.closing rfl hfits (opening + 1)
  have hdrop := drop_behind (textOf (arguments.pieces WrittenArgument.pieces))
    (trailing.text ++ ']' :: behind) ')' opening
  generalize hmeaning : (call leading name blanks arguments trailing).meaning offset = written
  rw [meaning, hlength, hopening, ← hmeanings] at hmeaning
  generalize textOf (arguments.pieces WrittenArgument.pieces) = list at *
  generalize hclose : offset + 1 + (leading.text ++ (name.text ++ (blanks.text ++
    '(' :: (list ++ ')' :: trailing.text)))).length = close
  simp only [List.length_append, List.length_cons] at hclose hlength hmeaning
  have hskip := @Name.skip name (blanks.text ++ '(' :: (list ++ ')' ::
    (trailing.text ++ ']' :: behind))) leading (offset + 1) close (by omega)
  have hfind := @Name.findArguments name ('(' :: (list ++ ')' ::
    (trailing.text ++ ']' :: behind))) blanks (offset + 1 + leading.text.length) close
    (by omega)
  have htrim := @Name.trimEnd name ('(' :: (list ++ ')' :: (trailing.text ++ ']' :: behind)))
    blanks (offset + 1 + leading.text.length)
  rw [hopening, findArguments_paren (by omega)] at hfind
  rw [hopening] at htrim
  have hplace : opening + (opening + 1 + list.length - opening + 1) + trailing.text.length =
      close := by omega
  have htail := @Gap.skip trailing (opening + (opening + 1 + list.length - opening + 1)) close
    (']' :: behind) (by omega)
  rw [hplace, skipTriviaFrom_past (Nat.le_refl _)] at htail
  simp only [List.append_assoc, List.cons_append, readAttribute, skipTrivia, Cursor.advance,
    List.drop_succ_cons, List.drop_zero, hskip, bind, Except.bind, hfind, htrim, hclosing]
  rw [Nat.add_comm 1, List.drop_succ_cons, hdrop, htail]
  simp only [ne_eq, not_true_eq_false, if_false, hparts, hfound]
  have hspan : close + 1 = offset + (leading.text.length + (name.text.length +
      (blanks.text.length + (list.length + (trailing.text.length + 1) + 1))) + 2) := by omega
  rw [← hmeaning, hspan]
  rfl

/-- An attribute is read as what it means. -/
theorem readAttribute_eq {owner : WrittenAttribute} (h : owner.Apart) (offset : Nat)
    (behind : List Char) :
    readAttribute ⟨offset, textOf owner.pieces ++ behind⟩
      (offset + 1 + (textOf owner.inside).length) = .ok (owner.meaning offset) := by
  cases owner with
  | constraint leading name blanks =>
      exact readAttribute_constraint leading name blanks offset behind
  | call leading name blanks arguments trailing =>
      exact readAttribute_call h leading name blanks trailing offset behind

/-! ### Attributes in a row -/

theorem listPieces_fits {owners : List (WrittenAttribute × Gap)}
    (h : ∀ owner ∈ owners, owner.1.Apart) (behind : List Char) :
    Fits (listPieces owners) behind := by
  induction owners with
  | nil => trivial
  | cons owner owners ih =>
      rw [List.forall_mem_cons] at h
      exact fits_append.2 ⟨fits_append.2 ⟨fits h.1 _, owner.2.fits _⟩, ih h.2⟩

theorem listPieces_balanced (owners : List (WrittenAttribute × Gap)) :
    Balanced false (listPieces owners) := by
  induction owners with
  | nil => exact .nil
  | cons owner owners ih =>
      exact (owner.1.balanced.append (owner.2.balanced false)).append ih

theorem skip_list (owners : List (WrittenAttribute × Gap)) {behind : List Char} {offset stop : Nat}
    (hlt : offset < stop) :
    skipTriviaFrom stop offset (textOf (listPieces owners) ++ '$' :: behind) =
      .ok ⟨offset, textOf (listPieces owners) ++ '$' :: behind⟩ := by
  cases owners with
  | nil =>
      exact skipTriviaFrom_char (by decide) (by decide) hlt
  | cons owner owners =>
      have htext : textOf (listPieces (owner :: owners)) ++ '$' :: behind =
          '[' :: (textOf owner.1.inside ++
            ']' :: (owner.2.text ++ (textOf (listPieces owners) ++ '$' :: behind))) := by
        simp [listPieces, pieces, Piece.openSquare, Piece.closeSquare, Piece.char, Gap.text]
      rw [htext]
      exact skipTriviaFrom_char (by decide) (by decide) hlt

theorem readAttributes_eq {owners : List (WrittenAttribute × Gap)}
    (h : ∀ owner ∈ owners, owner.1.Apart) {offset stop : Nat} (behind : List Char)
    (hstop : offset + (textOf (listPieces owners)).length < stop) :
    readAttributes stop ⟨offset, textOf (listPieces owners) ++ '$' :: behind⟩ =
      .ok (listMeaning offset owners,
        ⟨offset + (textOf (listPieces owners)).length, '$' :: behind⟩) := by
  induction owners generalizing offset with
  | nil =>
      rw [readAttributes.eq_def]
      rfl
  | cons owner owners ih =>
      rw [List.forall_mem_cons] at h
      have hlength := owner.1.length_pieces
      have hpieces : textOf (listPieces (owner :: owners)) =
          textOf owner.1.pieces ++ (owner.2.text ++ textOf (listPieces owners)) := by
        simp [listPieces, Gap.text]
      rw [hpieces] at hstop ⊢
      simp only [List.length_append] at hstop
      generalize hbehind : owner.2.text ++ (textOf (listPieces owners) ++ '$' :: behind) = after
      have hattribute := readAttribute_eq h.1 offset after
      have hclosing := owner.1.inside_balanced.closing (c := '[') (d := ']') rfl
        (inside_fits h.1 (']' :: after)) (offset + 1)
      have hskip := @Gap.skip owner.2 (offset + (textOf owner.1.pieces).length) stop
        (textOf (listPieces owners) ++ '$' :: behind) (by omega)
      rw [skip_list owners (by omega)] at hskip
      have hnext := @ih h.2 (offset + (textOf owner.1.pieces).length + owner.2.text.length)
        (by omega)
      have hend : offset + 1 + (textOf owner.1.inside).length + 1 =
          offset + (textOf owner.1.pieces).length := by omega
      rw [List.append_assoc, List.append_assoc, hbehind]
      rw [owner.1.textOf_pieces] at hattribute ⊢
      have hplace : skipTrivia (Cursor.advance ⟨offset, '[' :: (textOf owner.1.inside ++ ']' :: after)⟩
            (1 + (offset + 1 + (textOf owner.1.inside).length - offset))) stop =
          .ok ⟨offset + (textOf owner.1.pieces).length + owner.2.text.length,
            textOf (listPieces owners) ++ '$' :: behind⟩ := by
        rw [advance_group rfl (by simp only; omega), drop_behind, hend, skipTrivia, ← hbehind, hskip]
      have hfirst : offset + (textOf (owner.1.pieces ++ owner.2.pieces)).length =
          offset + (textOf owner.1.pieces).length + owner.2.text.length := by
        rw [textOf_append, List.length_append, Nat.add_assoc]
        rfl
      have hlast : offset + (textOf owner.1.pieces).length + owner.2.text.length +
          (textOf (listPieces owners)).length = offset + (textOf owner.1.pieces ++
            (owner.2.text ++ textOf (listPieces owners))).length := by
        simp only [List.length_append, Nat.add_assoc]
      rw [readAttributes_square rfl (by simp only; omega)]
      simp only [hclosing, bind, Except.bind]
      rw [hattribute]
      simp only [hplace, hnext]
      rw [listMeaning, hfirst, hlast]
      rfl

end WrittenAttribute

/-! ## Parameters -/

/-- The pieces behind the variable of a parameter. -/
def WrittenDefault.optionPieces (default : Option WrittenDefault) : List Piece :=
  (default.map WrittenDefault.pieces).getD []

theorem isVariablePart_of_isWordChar {c : Char} (h : Text.isWordChar c = true) :
    isVariablePart c = true := by
  rw [isVariablePart, h]
  rfl

theorem not_isVariablePart {c : Char}
    (h : (Text.isBlank c = true ∨ c = '#' ∨ c = '<') ∨ c = '=') : isVariablePart c = false := by
  rcases h with (hblank | rfl | rfl) | rfl
  · by_contra hcontra
    have hpart := Bool.of_not_eq_false hcontra
    simp only [isVariablePart, Bool.or_eq_true, beq_iff_eq] at hpart
    rcases hpart with (hword | rfl) | rfl
    · rw [Text.isBlank_of_isWordChar hword] at hblank
      cases hblank
    · revert hblank
      decide
    · revert hblank
      decide
  · decide
  · decide
  · decide

/-- Behind the variable of a parameter stand a gap, an equals sign or nothing. -/
theorem head_behind_variable (default : Option WrittenDefault) (gap : Gap) :
    ∀ c ∈ (textOf (WrittenDefault.optionPieces default) ++ gap.text).head?,
      isVariablePart c = false := by
  intro c hc
  apply not_isVariablePart
  cases default with
  | none => exact .inl (gap.head c hc)
  | some default =>
      have htext : textOf (WrittenDefault.optionPieces (some default)) ++ gap.text =
          default.before.text ++ '=' :: (textOf (default.behind.pieces ++ default.value.pieces) ++
            gap.text) := by
        simp [WrittenDefault.optionPieces, WrittenDefault.pieces, Piece.equals, Piece.char,
          Gap.text]
      rw [htext] at hc
      rcases default.before.head_append _ c hc with hgap | hequals
      · exact .inl hgap
      · cases hequals
        exact .inr rfl

theorem Variable.variableName?_eq (name : Variable) {rest : List Char}
    (hrest : ∀ c ∈ rest.head?, isVariablePart c = false) :
    variableName? ('$' :: (name.text ++ rest)) =
      some (String.ofList name.text, name.text.length + 1) := by
  have hname : ∀ c ∈ name.text, isVariablePart c = true :=
    fun c hc => isVariablePart_of_isWordChar (name.isWordChar c hc)
  have htake := (Text.takeWhile_append_of_head? hname hrest).1
  obtain ⟨c, more, htext⟩ := List.exists_cons_of_ne_nil name.ne_nil
  have hbrace : c ≠ '\x7b' := by
    rintro rfl
    have hword := name.isWordChar '\x7b' (by rw [htext]; exact List.mem_cons_self)
    revert hword
    decide
  unfold variableName?
  split
  · next heq =>
    rw [htext] at heq
    exact absurd (List.cons.inj (List.cons.inj heq).2).1 hbrace
  · next heq =>
    rw [← (List.cons.inj heq).2, htake, if_neg (by rw [htext]; exact Bool.false_ne_true)]
  · next hnone => exact absurd rfl (hnone _)

theorem readDefault_eq {default : Option WrittenDefault} {gap : Gap} {behind : List Char}
    (hfits : Fits (WrittenDefault.optionPieces default) (gap.text ++ behind)) (name : String)
    (offset : Nat) :
    readDefault name
        ⟨offset, textOf (WrittenDefault.optionPieces default) ++ (gap.text ++ behind)⟩
        (offset + (textOf (WrittenDefault.optionPieces default)).length + gap.text.length) =
      .ok (default.map fun default => String.ofList default.value.text,
        offset + (textOf (WrittenDefault.optionPieces default)).length) := by
  cases default with
  | none =>
      have hskip := @Gap.skip gap offset (offset + gap.text.length) behind (Nat.le_refl _)
      rw [skipTriviaFrom_past (Nat.le_refl _)] at hskip
      have htext : textOf (WrittenDefault.optionPieces none) = [] := rfl
      rw [htext, List.nil_append, List.length_nil, Nat.add_zero, readDefault]
      simp only [skipTrivia, hskip, bind, Except.bind]
      rw [if_neg (Nat.lt_irrefl _)]
      rfl
  | some default =>
      have hpieces : WrittenDefault.optionPieces (some default) = default.before.pieces ++
          Piece.equals :: (default.behind.pieces ++ default.value.pieces) := rfl
      have htext : textOf (WrittenDefault.optionPieces (some default)) = default.before.text ++
          '=' :: (default.behind.text ++ textOf default.value.pieces) := by
        rw [hpieces, textOf_append, textOf_cons, textOf_append]
        rfl
      rw [hpieces] at hfits
      have hvalue := (fits_append.1 (fits_append.1 hfits).2.2).2
      have hpos := default.value.isSolid.length_pos
      rw [htext]
      generalize hstop : offset + (default.before.text ++ '=' :: (default.behind.text ++
        textOf default.value.pieces)).length + gap.text.length = stop
      simp only [List.length_append, List.length_cons] at hstop ⊢
      have hequals := @skipTriviaFrom_char '=' (by decide) (by decide)
        (default.behind.text ++ (textOf default.value.pieces ++ (gap.text ++ behind)))
        (offset + default.before.text.length) stop (by omega)
      have hskip := (default.before.skip _ (by omega)).trans hequals
      obtain ⟨hbehind, hend, hcode⟩ := @IsSolid.read _ behind
        (offset + default.before.text.length + 1) stop default.value.isSolid default.behind gap
        hvalue (by omega)
      rw [default.value.shown] at hcode
      simp only [List.append_assoc, List.cons_append, readDefault, skipTrivia, hskip, bind,
        Except.bind]
      rw [if_pos (by omega)]
      simp only [Cursor.advance, List.drop_succ_cons, List.drop_zero, hbehind, hend]
      rw [if_neg (by omega)]
      simp only [hcode]
      have hlast : offset + default.before.text.length + 1 + default.behind.text.length +
          (textOf default.value.pieces).length = offset + (default.before.text.length +
            (default.behind.text.length + (textOf default.value.pieces).length + 1)) := by omega
      rw [hlast]
      rfl

namespace WrittenParameter

theorem fits {parameter : WrittenParameter}
    (hattributes : ∀ owner ∈ parameter.attributes, owner.1.Apart) {gap : Gap} {behind : List Char}
    (hapart : PowerShell.Apart parameter.pieces gap) (hbehind : EndsItem behind) :
    Fits parameter.pieces (gap.text ++ behind) := by
  obtain ⟨attributes, name, default⟩ := parameter
  refine fits_append.2 ⟨WrittenAttribute.listPieces_fits hattributes _,
    ends_ordinary (by decide) _, fits_append.2 ⟨fits_chars
      (fun c hc => (ordinary_of_isWordChar (name.isWordChar c hc)).1) _, ?_⟩⟩
  cases default with
  | none => trivial
  | some default =>
      have hpieces : (WrittenParameter.mk attributes name (some default)).pieces =
          (WrittenAttribute.listPieces attributes ++ Piece.dollar :: (name.pieces ++
            (default.before.pieces ++ Piece.equals :: default.behind.pieces))) ++
              default.value.pieces := by
        simp [pieces, WrittenDefault.pieces]
      rw [hpieces] at hapart
      have hvalue := hapart.of_append default.value.ne_nil
      exact fits_append.2 ⟨default.before.fits _, ends_ordinary (by decide) _,
        fits_append.2 ⟨default.behind.fits _, default.value.fits_gap hvalue hbehind⟩⟩

theorem balanced (parameter : WrittenParameter) : Balanced false parameter.pieces := by
  obtain ⟨attributes, name, default⟩ := parameter
  have hname : Balanced false name.pieces :=
    balanced_chars (fun c hc => (ordinary_of_isWordChar (name.isWordChar c hc)).2) false
  refine (WrittenAttribute.listPieces_balanced attributes).append
    (.char rfl (fun _ => by decide) (hname.append ?_))
  cases default with
  | none => exact .nil
  | some default =>
      exact (default.before.balanced false).append (.char rfl (fun _ => by decide)
        ((default.behind.balanced false).append default.value.balanced))

theorem textOf_pieces (parameter : WrittenParameter) : textOf parameter.pieces =
    textOf (WrittenAttribute.listPieces parameter.attributes) ++ '$' :: (parameter.name.text ++
      textOf (WrittenDefault.optionPieces parameter.default)) := by
  simp [pieces, WrittenDefault.optionPieces, Piece.dollar, Piece.char, Variable.pieces, wordPieces]

theorem optionPieces_fits {parameter : WrittenParameter} {behind : List Char}
    (hfits : Fits parameter.pieces behind) :
    Fits (WrittenDefault.optionPieces parameter.default) behind :=
  (fits_append.1 (fits_append.1 hfits).2.2).2

theorem readParameter_eq {parameter : WrittenParameter}
    (hattributes : ∀ owner ∈ parameter.attributes, owner.1.Apart) {gap : Gap} {behind : List Char}
    (hfits : Fits parameter.pieces (gap.text ++ behind)) (offset : Nat) :
    readParameter ⟨offset, textOf parameter.pieces ++ (gap.text ++ behind)⟩
        (offset + (textOf parameter.pieces).length + gap.text.length) =
      .ok (parameter.meaning offset) := by
  have hlength := congrArg List.length parameter.textOf_pieces
  have hdefault := @readDefault_eq parameter.default gap behind (optionPieces_fits hfits)
    (String.ofList parameter.name.text)
    (offset + (textOf (WrittenAttribute.listPieces parameter.attributes)).length +
      (parameter.name.text.length + 1))
  have hname := parameter.name.variableName?_eq (head_behind_variable parameter.default gap)
  rw [meaning, parameter.textOf_pieces]
  generalize htail : textOf (WrittenDefault.optionPieces parameter.default) = tail at *
  simp only [List.length_append, List.length_cons] at hlength ⊢
  generalize hstop : offset + ((textOf (WrittenAttribute.listPieces parameter.attributes)).length +
    (parameter.name.text.length + tail.length + 1)) + gap.text.length = stop
  have hattributes := @WrittenAttribute.readAttributes_eq parameter.attributes hattributes offset
    stop (parameter.name.text ++ (tail ++ (gap.text ++ behind))) (by omega)
  generalize hplace : offset +
    (textOf (WrittenAttribute.listPieces parameter.attributes)).length = place at *
  have hend : place + (parameter.name.text.length + 1) + tail.length + gap.text.length = stop := by
    omega
  rw [hend] at hdefault
  have htextTo : Cursor.textTo
      ⟨place, '$' :: (parameter.name.text ++ (tail ++ (gap.text ++ behind)))⟩ stop =
      '$' :: (parameter.name.text ++ (tail ++ gap.text)) := by
    have hcount : stop - place = ('$' :: (parameter.name.text ++ (tail ++ gap.text))).length := by
      simp only [List.length_cons, List.length_append]
      omega
    have hassoc : '$' :: (parameter.name.text ++ (tail ++ (gap.text ++ behind))) =
        '$' :: (parameter.name.text ++ (tail ++ gap.text)) ++ behind := by simp
    rw [Cursor.textTo, hcount, hassoc, List.take_left]
  have hspan : offset + ((textOf (WrittenAttribute.listPieces parameter.attributes)).length +
      (parameter.name.text.length + tail.length + 1)) =
      place + (parameter.name.text.length + 1) + tail.length := by omega
  simp only [List.append_assoc, List.cons_append, readParameter, hattributes, bind, Except.bind,
    htextTo, hname, Cursor.advance, List.drop_succ_cons, List.drop_left, hdefault, hspan]
  rfl

theorem skip (parameter : WrittenParameter) {behind : List Char} {offset stop : Nat}
    (hlt : offset < stop) : skipTriviaFrom stop offset (textOf parameter.pieces ++ behind) =
      .ok ⟨offset, textOf parameter.pieces ++ behind⟩ := by
  rw [parameter.textOf_pieces, List.append_assoc, List.cons_append]
  exact WrittenAttribute.skip_list parameter.attributes hlt

theorem readParameters_entry {entry : Spaced WrittenParameter} {behind : List Char} {offset : Nat}
    (hattributes : ∀ owner ∈ entry.item.attributes, owner.1.Apart)
    (hfits : Fits (entry.pieces pieces) behind) (found : Bool) (more : List Part) :
    readParameters found (⟨⟨offset, textOf (entry.pieces pieces) ++ behind⟩,
        offset + (textOf (entry.pieces pieces)).length⟩ :: more) =
      (readParameters true more).map
        (entry.item.meaning (offset + entry.before.text.length) :: ·) := by
  have hpos : 0 < (textOf entry.item.pieces).length := by
    rw [entry.item.textOf_pieces, List.length_append, List.length_cons]
    omega
  have hread := readParameter_eq hattributes (Spaced.item_fits hfits)
    (offset + entry.before.text.length)
  rw [entry.textOf_pieces, List.append_assoc, List.append_assoc]
  have hstop : offset + (entry.before.text ++ (textOf entry.item.pieces ++
      entry.behind.text)).length = offset + entry.before.text.length +
        (textOf entry.item.pieces).length + entry.behind.text.length := by
    simp only [List.length_append]
    omega
  rw [hstop]
  have hskip := (entry.before.skip (textOf entry.item.pieces ++ (entry.behind.text ++ behind))
    (by omega)).trans (entry.item.skip (by omega : offset + entry.before.text.length <
      offset + entry.before.text.length + (textOf entry.item.pieces).length +
        entry.behind.text.length))
  simp only [readParameters, skipTrivia, hskip, bind, Except.bind]
  rw [if_pos (by omega)]
  simp only [hread]
  cases readParameters true more <;> rfl

theorem readParameters_parts {offset : Nat} {parts : List Part}
    {entries : List (Spaced WrittenParameter)} (h : PartsFor pieces offset parts entries)
    (hattributes : ∀ entry ∈ entries, ∀ owner ∈ entry.item.attributes, owner.1.Apart)
    (found : Bool) :
    readParameters found parts = .ok (meanings pieces meaning offset entries) := by
  induction h generalizing found with
  | nil => rfl
  | cons hfits _ ih =>
      rw [List.forall_mem_cons] at hattributes
      rw [readParameters_entry hattributes.1 hfits, ih hattributes.2]
      rfl

end WrittenParameter

/-! ## Blocks -/

/-! ### Looking for the keyword -/

/-- A lexeme with which no keyword can start is passed over. -/
theorem blocksFrom_scans {kind : LexemeKind} {text behind : List Char} (h : Scans kind text behind)
    {previous : Option Char} (hletter : kind = .plain → ∀ c ∈ text,
      (Text.isLetter c && keywordMayFollow previous) = false) (offset : Nat) :
    blocksFrom previous offset (text ++ behind) =
      blocksFrom text.getLast? (offset + text.length) behind := by
  obtain ⟨c, rest, lexeme, heq, hscan, rfl, hlength⟩ := h
  have hdrop := drop_lexeme heq hlength
  have htake : (c :: rest).take lexeme.length = text := by
    rw [hlength, ← heq, List.take_left]
  rw [heq, blocksFrom]
  simp only [scanAt_eq_ok_iff.2 hscan, bind, Except.bind]
  by_cases hplain : lexeme.kind = .plain
  · rw [length_of_plain hscan hplain] at hlength
    obtain ⟨d, rfl⟩ := List.length_eq_one_iff.1 hlength.symm
    obtain ⟨rfl, rfl⟩ := List.cons.inj heq
    rw [if_pos hplain, hletter hplain d (List.mem_singleton_self d)]
    rfl
  · rw [if_neg hplain, htake, hdrop, hlength]

theorem IsFiller.not_letter {piece : Piece} (h : IsFiller piece) :
    piece.kind = .plain → ∀ c ∈ piece.text, Text.isLetter c = false := by
  intro hplain c hc
  rcases h with hcomment | hblank
  · rw [hplain] at hcomment
    cases hcomment
  · obtain ⟨d, hd, rfl, hd'⟩ := exists_char_of_isBlank hblank
    cases List.mem_singleton.1 hc
    by_contra hcontra
    rw [Text.isBlank_of_isLetter (Bool.of_not_eq_false hcontra)] at hd'
    cases hd'

theorem blocksFrom_filler {piece : Piece} (h : IsFiller piece) {behind : List Char}
    (hends : Ends piece.kind piece.text behind) (previous : Option Char) (offset : Nat) :
    blocksFrom previous offset (piece.text ++ behind) =
      blocksFrom piece.text.getLast? (offset + piece.text.length) behind :=
  blocksFrom_scans (piece.isLexeme.scans hends)
    (fun hplain c hc => by rw [h.not_letter hplain c hc, Bool.false_and]) offset

theorem blocksFrom_fillers {pieces : List Piece} {behind : List Char}
    (h : ∀ piece ∈ pieces, IsFiller piece) (hfits : Fits pieces behind) (previous : Option Char)
    (offset : Nat) :
    blocksFrom previous offset (textOf pieces ++ behind) =
      blocksFrom ((textOf pieces).getLast?.or previous) (offset + (textOf pieces).length)
        behind := by
  induction pieces generalizing previous offset with
  | nil => rfl
  | cons piece pieces ih =>
      rw [List.forall_mem_cons] at h
      have hsome : piece.text.getLast?.or previous = piece.text.getLast? := by
        rw [List.getLast?_eq_some_getLast piece.text_ne_nil, Option.some_or]
      rw [textOf_cons, List.append_assoc, blocksFrom_filler h.1 hfits.1, ih h.2 hfits.2,
        List.getLast?_append, List.length_append, Nat.add_assoc, Option.or_assoc, hsome]

theorem getLast?_blockComment (content : List Char) :
    ('<' :: '#' :: (content ++ ['#', '>'])).getLast? = some '>' := by
  have htext : '<' :: '#' :: (content ++ ['#', '>']) =
      ('<' :: '#' :: (content ++ ['#'])) ++ ['>'] := by simp
  rw [htext, List.getLast?_concat]

theorem Gap.last (gap : Gap) : ∀ c ∈ gap.text.getLast?, Text.isBlank c = true ∨ c = '>' := by
  obtain ⟨pieces, h⟩ := gap
  unfold Gap.text
  induction h with
  | nil => nofun
  | blank hpiece _ ih =>
      intro c hc
      obtain ⟨d, hd, rfl, hd'⟩ := exists_char_of_isBlank hpiece
      rw [textOf_cons, List.getLast?_append, Option.mem_def, Option.or_eq_some_iff] at hc
      rcases hc with hc | ⟨_, hc⟩
      · exact ih c hc
      · cases hc
        exact .inl hd'
  | @block piece pieces hpiece _ ih =>
      intro c hc
      rw [textOf_cons, List.getLast?_append, Option.mem_def, Option.or_eq_some_iff] at hc
      rcases hc with hc | ⟨_, hc⟩
      · exact ih c hc
      · obtain ⟨kind, text, hlexeme⟩ := piece
        cases hpiece
        cases hlexeme with
        | @blockComment content _ =>
            cases (getLast?_blockComment content).symm.trans hc
            exact .inr rfl
  | line _ hend _ ih =>
      intro c hc
      rw [textOf_cons, textOf_cons, hend, ← List.append_assoc, List.getLast?_append,
        Option.mem_def, Option.or_eq_some_iff] at hc
      rcases hc with hc | ⟨_, hc⟩
      · exact ih c hc
      · rw [List.getLast?_concat] at hc
        cases hc
        exact .inl (by decide)

theorem keywordMayFollow_of_gap {c : Char} (h : Text.isBlank c = true ∨ c = '>') :
    keywordMayFollow (some c) = true := by
  rcases h with hblank | rfl
  · have hword : Text.isWordChar c = false := by
      by_contra hcontra
      rw [Text.isBlank_of_isWordChar (Bool.of_not_eq_false hcontra)] at hblank
      cases hblank
    have hmarks : c ∉ ['-', '$', '.', ':'] := Text.not_mem_of_any (by decide) hblank
    simp only [List.mem_cons, List.not_mem_nil, or_false, not_or] at hmarks
    simp [keywordMayFollow, isNamePart, hword, hmarks]
  · decide

theorem Gap.blocksFrom_eq (gap : Gap) {previous : Option Char}
    (hprevious : keywordMayFollow previous = true) (offset : Nat) (behind : List Char) :
    ∃ previous', keywordMayFollow previous' = true ∧
      blocksFrom previous offset (gap.text ++ behind) =
        blocksFrom previous' (offset + gap.text.length) behind := by
  refine ⟨gap.text.getLast?.or previous, ?_,
    blocksFrom_fillers gap.isFiller (gap.fits behind) previous offset⟩
  cases hlast : gap.text.getLast? with
  | none => exact hprevious
  | some c => exact keywordMayFollow_of_gap (gap.last c hlast)

/-! ### The keyword -/

theorem Keyword.letters (keyword : Keyword) :
    ∀ c ∈ keyword.text, c.toNat < 128 ∧ Text.isLetter c = true := by
  intro c hc
  have hlower : c.toLower ∈ "param".toList := by
    rw [← keyword.isKeyword]
    exact List.mem_map_of_mem hc
  have hlt : c.toNat < 128 := by
    by_contra hcontra
    have hsame : c.toLower = c := by
      rw [Char.toLower, dif_neg]
      simp only [ge_iff_le, UInt32.le_iff_toNat_le, not_and, Char.toNat_val]
      have hupper : ('Z' : Char).toNat = 90 := rfl
      omega
    have hascii : "param".toList.all (·.toNat < 128) = true := by decide
    rw [hsame] at hlower
    exact hcontra (of_decide_eq_true (List.all_eq_true.1 hascii c hlower))
  have hletters : ∀ n < 128, (Char.ofNat n).toLower ∈ "param".toList →
      Text.isLetter (Char.ofNat n) = true := by decide
  have hletter := hletters c.toNat hlt
  rw [Char.ofNat_toNat] at hletter
  exact ⟨hlt, hletter hlower⟩

theorem Keyword.lower_eq (keyword : Keyword) : Text.lower keyword.text = "param".toList := by
  rw [Text.lower_of_ascii fun c hc => (keyword.letters c hc).1, keyword.isKeyword]

theorem isNamePart_of_isLetter {c : Char} (h : Text.isLetter c = true) : isNamePart c = true := by
  rw [isNamePart, Text.isWordChar_of_isLetter h]
  rfl

theorem not_isNamePart {c : Char}
    (h : (Text.isBlank c = true ∨ c = '#' ∨ c = '<') ∨ c = '(') : isNamePart c = false := by
  rcases h with (hblank | rfl | rfl) | rfl
  · have hfollow := keywordMayFollow_of_gap (.inl hblank)
    rw [keywordMayFollow, Bool.not_eq_true', Bool.or_eq_false_iff, Bool.or_eq_false_iff,
      Bool.or_eq_false_iff] at hfollow
    exact hfollow.1.1.1
  · decide
  · decide
  · decide

section Steps

variable {previous : Option Char} {c : Char} {rest : List Char} {offset : Nat} {word : List Char}
  {behind : Cursor}

theorem blocksFrom_word (hletter : Text.isLetter c = true) (hfollow : keywordMayFollow previous = true)
    (hword : c :: rest.takeWhile isNamePart = word)
    (hbehind : (⟨offset + word.length, rest.drop (word.length - 1)⟩ : Cursor) = behind)
    (hkeyword : Text.lower word ≠ "param".toList) :
    blocksFrom previous offset (c :: rest) = blocksFrom word.getLast? behind.offset behind.rest := by
  have hscan := scan_plain
    (ordinary_of_isWordChar (Text.isWordChar_of_isLetter hletter)).1 rest
  subst hword hbehind
  rw [blocksFrom]
  simp only [scanAt_eq_ok_iff.mpr hscan, bind, Except.bind, if_true, hletter, hfollow,
    Bool.true_and, if_neg hkeyword]

theorem blocksFrom_keyword (hletter : Text.isLetter c = true)
    (hfollow : keywordMayFollow previous = true) (hword : c :: rest.takeWhile isNamePart = word)
    (hbehind : (⟨offset + word.length, rest.drop (word.length - 1)⟩ : Cursor) = behind)
    (hkeyword : Text.lower word = "param".toList) :
    blocksFrom previous offset (c :: rest) = (do
      let next ← skipTrivia behind (offset + rest.length + 1)
      match next.rest with
      | '(' :: inside => do
        let close ← closing '(' ')' ⟨next.offset + 1, inside⟩
        let block ← readBlock offset ⟨next.offset + 1, inside⟩ close
        let blocks ← blocksFrom (some ')') (close + 1) (inside.drop (close - next.offset))
        return block :: blocks
      | _ => blocksFrom word.getLast? behind.offset behind.rest) := by
  have hscan := scan_plain
    (ordinary_of_isWordChar (Text.isWordChar_of_isLetter hletter)).1 rest
  subst hword hbehind
  rw [blocksFrom]
  simp only [scanAt_eq_ok_iff.mpr hscan, bind, Except.bind, if_true, hletter, hfollow,
    Bool.true_and, if_pos hkeyword]
  split
  · next heq =>
    rw [heq]
    rfl
  · next next heq =>
    rw [heq]
    split
    · next hrest =>
      simp only [hrest]
    · simp only

end Steps

/-- A keyword with round brackets behind it is a block. -/
theorem Keyword.blocksFrom_eq (keyword : Keyword) {previous : Option Char}
    (hprevious : keywordMayFollow previous = true) {offset close : Nat} {gap : Gap}
    {inside : List Char} {block : ParameterBlock Span}
    (hclose : closing '(' ')'
      ⟨offset + keyword.text.length + gap.text.length + 1, inside⟩ = .ok close)
    (hblock : readBlock offset
      ⟨offset + keyword.text.length + gap.text.length + 1, inside⟩ close = .ok block) :
    blocksFrom previous offset (keyword.text ++ (gap.text ++ '(' :: inside)) =
      (blocksFrom (some ')') (close + 1)
        (inside.drop (close - (offset + keyword.text.length + gap.text.length)))).map
          (block :: ·) := by
  have hletters := keyword.letters
  have hlower := keyword.lower_eq
  obtain ⟨text, hkeyword⟩ := keyword
  cases text with
  | nil => cases hkeyword
  | cons c word =>
      rw [List.forall_mem_cons] at hletters
      have hhead : ∀ d ∈ (gap.text ++ '(' :: inside).head?, isNamePart d = false := by
        intro d hd
        apply not_isNamePart
        rcases gap.head_append _ d hd with hgap | hopens
        · exact .inl hgap
        · cases hopens
          exact .inr rfl
      have htake := (Text.takeWhile_append_of_head?
        (fun d hd => isNamePart_of_isLetter (hletters.2 d hd).2) hhead).1
      have hbehind : (⟨offset + (c :: word).length,
          (word ++ (gap.text ++ '(' :: inside)).drop ((c :: word).length - 1)⟩ : Cursor) =
          ⟨offset + (c :: word).length, gap.text ++ '(' :: inside⟩ :=
        congrArg (Cursor.mk _) List.drop_left
      have hskip : skipTrivia ⟨offset + (c :: word).length, gap.text ++ '(' :: inside⟩
          (offset + (word ++ (gap.text ++ '(' :: inside)).length + 1) =
          .ok ⟨offset + (c :: word).length + gap.text.length, '(' :: inside⟩ := by
        rw [skipTrivia, gap.skip _ (by simp only [List.length_append, List.length_cons]; omega)]
        exact skipTriviaFrom_char (by decide) (by decide)
          (by simp only [List.length_append, List.length_cons]; omega)
      rw [List.cons_append, blocksFrom_keyword hletters.1.2 hprevious
        (congrArg (List.cons c) htake) hbehind hlower]
      simp only [hskip, hclose, hblock, bind, Except.bind]
      cases blocksFrom (some ')') (close + 1)
        (inside.drop (close - (offset + (c :: word).length + gap.text.length))) <;> rfl

namespace WrittenBlock

variable {block : WrittenBlock}

theorem fitsItems (h : block.Apart) : FitsItems WrittenParameter.pieces block.parameters :=
  fun entry hentry _ hbehind =>
    WrittenParameter.fits (h.2 entry hentry) (h.1 entry hentry) hbehind

theorem readBlock_eq (h : block.Apart) (keyword offset : Nat) (behind : List Char) :
    readBlock keyword
        ⟨offset, textOf (block.parameters.pieces WrittenParameter.pieces) ++ ')' :: behind⟩
        (offset + (textOf (block.parameters.pieces WrittenParameter.pieces)).length) =
      .ok ⟨meanings WrittenParameter.pieces WrittenParameter.meaning offset
        block.parameters.entries, ⟨keyword,
          offset + (textOf (block.parameters.pieces WrittenParameter.pieces)).length + 1⟩⟩ := by
  have hfits := Listed.fits (fitsItems h) (endsItem_close behind)
  have hattributes := h.2
  cases hparameters : block.parameters with
  | empty gap =>
      have hparts : splitTopLevel ⟨offset, gap.text ++ ')' :: behind⟩ (offset + gap.text.length) =
          .ok [⟨⟨offset, gap.text ++ ')' :: behind⟩, offset + gap.text.length⟩] :=
        splitTopLevel_gap gap rfl
      have hskip := @Gap.skip gap offset (offset + gap.text.length) (')' :: behind) (Nat.le_refl _)
      rw [skipTriviaFrom_past (Nat.le_refl _)] at hskip
      have hread : readParameters false [⟨⟨offset, gap.text ++ ')' :: behind⟩,
          offset + gap.text.length⟩] = .ok [] := by
        simp only [readParameters, skipTrivia, hskip, bind, Except.bind]
        rw [if_neg (Nat.lt_irrefl _)]
        rfl
      have htext : textOf ((Listed.empty gap).pieces WrittenParameter.pieces) = gap.text := rfl
      rw [htext]
      simp only [readBlock, hparts, bind, Except.bind, hread]
      rfl
  | items first more =>
      rw [hparameters] at hfits hattributes
      obtain ⟨parts, hparts, hentries⟩ :=
        @exists_parts_of_items _ _ first more (')' :: behind) offset _ WrittenParameter.balanced
          hfits rfl
      have hread := WrittenParameter.readParameters_parts hentries hattributes false
      simp only [readBlock, hparts, bind, Except.bind, hread]
      rfl

end WrittenBlock

/-- A written parameter block is read as what it means. -/
theorem parameterBlocks_text (block : WrittenBlock) (h : block.Apart) :
    parameterBlocks block.text = .ok [block.meaning] := by
  have hfits := Listed.fits (WrittenBlock.fitsItems h) (endsItem_close block.trailing.text)
  have hbalanced : Balanced true (block.parameters.pieces WrittenParameter.pieces) :=
    Listed.balanced WrittenParameter.balanced
  generalize hopening : block.leading.text.length + block.keyword.text.length +
    block.gap.text.length = opening
  have hclose : closing '(' ')' ⟨opening + 1,
      textOf (block.parameters.pieces WrittenParameter.pieces) ++ ')' :: block.trailing.text⟩ =
      .ok (opening + 1 + (textOf (block.parameters.pieces WrittenParameter.pieces)).length) :=
    hbalanced.closing rfl hfits (opening + 1)
  have hblock := WrittenBlock.readBlock_eq h block.leading.text.length (opening + 1)
    block.trailing.text
  have hdrop := drop_behind (textOf (block.parameters.pieces WrittenParameter.pieces))
    block.trailing.text ')' opening
  obtain ⟨previous, hprevious, hleading⟩ := block.leading.blocksFrom_eq
    (rfl : keywordMayFollow none = true) 0 (block.keyword.text ++ (block.gap.text ++
      '(' :: (textOf (block.parameters.pieces WrittenParameter.pieces) ++
        ')' :: block.trailing.text)))
  obtain ⟨previous', _, htrailing⟩ := block.trailing.blocksFrom_eq
    (by decide : keywordMayFollow (some ')') = true)
    (opening + 1 + (textOf (block.parameters.pieces WrittenParameter.pieces)).length + 1) []
  rw [List.append_nil, blocksFrom] at htrailing
  rw [Nat.zero_add] at hleading
  rw [parameterBlocks, WrittenBlock.text, hleading]
  subst hopening
  rw [block.keyword.blocksFrom_eq hprevious hclose hblock, hdrop, htrailing]
  rfl

/-! ### Two blocks -/

def Gap.empty : Gap := ⟨[], .nil⟩

def Gap.space : Gap := ⟨[Piece.char ' ' (by decide)], .blank rfl .nil⟩

def Gap.comment : Gap :=
  ⟨[⟨.lineComment, ['#', 'c'], .lineComment (by decide)⟩, Piece.char '\n' (by decide)],
    .line rfl rfl .nil⟩

/-- A single character that is neither blank nor a bracket, a comma or the start of a lexeme. -/
def Value.ofChar (c : Char) (hc : c ∉ ['#', '\x60', '\x27', '"']) (hbracket : isBracket c = false)
    (hcomma : c ≠ ',') (hblank : Text.isBlank c = false) : Value where
  pieces := [Piece.char c hc]
  fits := ⟨⟨nofun, nofun⟩, trivial⟩
  balanced := .char hbracket (fun _ => hcomma) .nil
  noComment := by
    intro piece hpiece
    cases List.mem_singleton.1 hpiece
    rfl
  first := ⟨c, rfl, hblank, by rintro rfl; exact hc (by decide)⟩
  last := ⟨c, rfl, hblank⟩

def blockOfDefault (attributes : List (WrittenAttribute × Gap)) (value : Value) : WrittenBlock where
  leading := .empty
  keyword := ⟨"param".toList, by decide⟩
  gap := .empty
  parameters := .items ⟨.empty, ⟨attributes, ⟨['a'], by decide, List.all_eq_true.1 (by decide)⟩,
    some ⟨.space, .space, value⟩⟩, .comment⟩ []
  trailing := .empty

/-- The attribute `[A(B, C = 1)]` of a parameter and its default `2`. -/
def annotatedBlock : WrittenBlock :=
  blockOfDefault
    [(.call .empty ⟨[Piece.char 'A' (by decide)], by decide, .char (.inl (by decide)) .nil,
        ⟨ends_ordinary (by decide) _, trivial⟩⟩ ⟨[], nofun⟩
        (.items ⟨.empty, .bare ⟨['B'], by decide⟩, .empty⟩
          [⟨.space, .pair ⟨['C'], by decide⟩ .space .space
            (.ofChar '1' (by decide) (by decide) (by decide) (by decide)) (by decide), .empty⟩])
        .empty, .space)]
    (.ofChar '2' (by decide) (by decide) (by decide) (by decide))

/-- The comment `#c` directly behind the default `<`. -/
def commentBehindLess : WrittenBlock :=
  blockOfDefault [] (.ofChar '<' (by decide) (by decide) (by decide) (by decide))

theorem annotatedBlock_apart : annotatedBlock.Apart := by
  constructor
  · intro entry hentry
    cases List.mem_singleton.1 hentry
    rintro _ ⟨⟩ _ htext
    cases htext
  · intro entry hentry owner howner
    cases List.mem_singleton.1 hentry
    cases List.mem_singleton.1 howner
    have harguments : ∀ list : List (Spaced WrittenArgument),
        (∀ argument ∈ list, argument.behind = Gap.empty) → ∀ argument ∈ list,
          PowerShell.Apart argument.item.pieces argument.behind := by
      intro list hlist argument hargument
      rw [hlist argument hargument]
      nofun
    apply harguments
    rintro argument (_ | ⟨_, _ | ⟨_, hargument⟩⟩)
    · rfl
    · rfl
    · cases hargument

theorem parameterBlocks_text_annotated : annotatedBlock.Apart ∧
    parameterBlocks "param([A(B, C = 1)] $a = 2#c\n)".toList =
      .ok [⟨[⟨"a", [⟨"A", [⟨"B", "", true, ⟨9, 10⟩⟩, ⟨"C", "1", false, ⟨12, 17⟩⟩], [], false,
        ⟨6, 19⟩⟩], some "2", ⟨6, 26⟩⟩], ⟨0, 30⟩⟩] :=
  ⟨annotatedBlock_apart, parameterBlocks_text annotatedBlock annotatedBlock_apart⟩

/-- A default that ends with a less-than sign runs together with a line comment behind it. -/
theorem commentBehindLess_fails :
    commentBehindLess.text = "param($a = <#c\n)".toList ∧
      parameterBlocks commentBehindLess.text ≠ .ok [commentBehindLess.meaning] := by
  have hfault : parameterBlocks commentBehindLess.text =
      .error ⟨.unterminatedComment, 11⟩ := by with_unfolding_all rfl
  refine ⟨rfl, ?_⟩
  rw [hfault]
  nofun

end DscAudit.PowerShell
