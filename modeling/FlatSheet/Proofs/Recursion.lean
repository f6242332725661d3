/-
Flattening as a recursion over texts.

A sheet can be flattened without a stack, by looking for the end of each block first.
Outside all blocks the next brace decides: text up to it is a selector, the block is cut
out and flattened as a text of its own, and the rest of the sheet follows.  A block is its
declarations, and then the blocks in it, each cut out in the same way.

This reads every block once for each block around it, which the event loop does not.  It
yields the same rules and the same reports, in the same order and with the same places.
-/
import FlatSheet.Proofs.Declaration
import FlatSheet.Proofs.Settled

namespace FlatSheet

instance : Append Flattened := ⟨fun f g => ⟨f.rules ++ g.rules, f.diagnostics ++ g.diagnostics⟩⟩

namespace Recursion

/-- The first boundary of a text outside comments. -/
structure Boundary where
  /-- The text in front, without the blanks and comments that it begins with. -/
  before : List Char
  char : Char
  offset : Nat
  after : List Char

/-- Skips blanks and comments, and goes on to the first boundary outside comments. -/
def boundary? (isBoundary : Char → Bool) (cs : List Char) : Option Boundary :=
  let s := (Cursor.ofText cs).skipTrivia.stretch isBoundary
  match s.2.rest with
  | [] => none
  | c :: after => some ⟨s.1, c, s.2.location.offset, after⟩

/-- Cuts a text at a byte offset, and leaves out the character at the cut. -/
def cutOut (n : Nat) (cs : List Char) : List Char × List Char :=
  (Location.beginningBefore n cs, ((Scan.dropBytes? n cs).getD []).drop 1)

theorem length_after_lt {isBoundary : Char → Bool} {cs : List Char} {b : Boundary}
    (h : boundary? isBoundary cs = some b) : b.after.length < cs.length := by
  have htrivia := Cursor.length_skipTrivia_le (Cursor.ofText cs)
  have hstretch := Cursor.length_stretch_le isBoundary (Cursor.ofText cs).skipTrivia
  unfold boundary? at h
  dsimp only at h
  split at h
  · simp at h
  · rename_i hrest
    obtain rfl := by simpa using h.symm
    rw [hrest, List.length_cons] at hstretch
    exact Nat.lt_of_lt_of_le hstretch htrivia

theorem length_beginningBefore_le (n : Nat) (cs : List Char) :
    (Location.beginningBefore n cs).length ≤ cs.length := by
  fun_induction Location.beginningBefore n cs with
  | case1 => simp
  | case2 => simp
  | case3 n c cs ih => simpa using ih

theorem length_dropBytes?_le {n : Nat} {cs ds : List Char} (h : Scan.dropBytes? n cs = some ds) :
    ds.length ≤ cs.length := by
  fun_induction Scan.dropBytes? n cs with
  | case1 => simp_all
  | case2 => simp at h
  | case3 n c cs _ ih => exact Nat.le_succ_of_le (ih h)
  | case4 => simp at h

theorem length_cutOut_le (n : Nat) (cs : List Char) :
    (cutOut n cs).1.length ≤ cs.length ∧ (cutOut n cs).2.length ≤ cs.length := by
  refine ⟨length_beginningBefore_le n cs, ?_⟩
  unfold cutOut
  rcases h : Scan.dropBytes? n cs with _ | ds
  · simp
  · have := length_dropBytes?_le h
    simp
    omega

/-- The blocks directly in a text that stands in a block with the given full selector.  The text
begins at byte `base` of the sheet. -/
def blocks (source selector : String) (base : Nat) (content : List Char) : Flattened :=
  match _h : boundary? ScanMode.nested.isBoundary content with
  | none => ⟨[], []⟩
  | some b =>
    if b.char = '{' then
      match matchingBrace? (String.ofList content) b.offset with
      | none => ⟨[], []⟩
      | some close =>
        let cut := cutOut (close - (b.offset + 1)) b.after
        let nested := String.ofList (Scan.clean b.before)
        let full := Selector.resolve selector nested
        (if nested = "" then
          ⟨[], [.degenerateNestedSelector (.ofOffset source (base + b.offset))]⟩
        else
          ⟨Rule.ofBlock full (extractDeclarations (String.ofList cut.1)), []⟩
            ++ blocks source full (base + b.offset + 1) cut.1)
          ++ blocks source selector (base + close + 1) cut.2
    else blocks source selector (base + b.offset + 1) b.after
termination_by content.length
decreasing_by
  · exact Nat.lt_of_le_of_lt (length_cutOut_le _ b.after).1 (length_after_lt _h)
  · exact Nat.lt_of_le_of_lt (length_cutOut_le _ b.after).2 (length_after_lt _h)
  · exact length_after_lt _h

/-- What stands outside all blocks in the text from byte `base` of the sheet on. -/
def sheet (source : String) (base : Nat) (cs : List Char) : Flattened :=
  match _h : boundary? ScanMode.topLevel.isBoundary cs with
  | none => ⟨[], []⟩
  | some b =>
    let place := Location.ofOffset source (base + b.offset)
    if b.char = '{' then
      match matchingBrace? source (base + b.offset) with
      | none => ⟨[], [.unbalancedBraces place]⟩
      | some close =>
        let cut := cutOut (close - (base + b.offset + 1)) b.after
        let selector := String.ofList (Scan.clean b.before)
        (match selector.toList with
          | [] => ⟨[], [.emptySelector place]⟩
          | '@' :: afterSign =>
            let name := String.ofList (afterSign.takeWhile fun c => !Text.isBlank c && c ≠ '(')
            ⟨[], [.atRuleDiscarded name place]⟩
          | _ =>
            ⟨Rule.ofBlock selector (extractDeclarations (String.ofList cut.1)), []⟩
              ++ blocks source selector (base + b.offset + 1) cut.1)
          ++ sheet source (close + 1) cut.2
    else ⟨[], [.strayClosingBrace place]⟩ ++ sheet source (base + b.offset + 1) b.after
termination_by cs.length
decreasing_by
  · exact Nat.lt_of_le_of_lt (length_cutOut_le _ b.after).2 (length_after_lt _h)
  · exact length_after_lt _h

/-! ### Boundaries and the pieces of a text -/

open Scan Marked

section

variable {mode : ScanMode} {cs : List Char}

theorem forall_of_boundary?_eq_none (h : boundary? mode.isBoundary cs = none) :
    ∀ ch ∈ shown (pieces 0 cs), mode.isBoundary ch = false := by
  obtain ⟨ps, hr, hspacing⟩ := (Cursor.ofText cs).reads_skipTrivia
  obtain ⟨qs, hr', -, hqs, -⟩ :=
    Cursor.reads_stretch mode.isBoundary (Cursor.ofText cs).skipTrivia
  have hpieces := (hr.trans hr').pieces
  unfold boundary? at h
  dsimp only at h
  split at h
  · rename_i hrest
    have hend : (Cursor.stretch mode.isBoundary (Cursor.ofText cs).skipTrivia).2.pieces = [] := by
      rw [Cursor.pieces, hrest, pieces_nil]
    rw [hend, List.append_nil] at hpieces
    rw [show pieces 0 cs = ps ++ qs from hpieces, shown_append]
    intro ch hch
    rcases List.mem_append.mp hch with hch | hch
    · exact isBoundary_of_isSpacing (hspacing ch hch) mode
    · exact hqs ch hch
  · simp at h

/-- A boundary is a piece of its own, and the text after it is read from the beginning. -/
theorem pieces_of_boundary? {b : Boundary} (h : boundary? mode.isBoundary cs = some b) :
    ∃ ps, pieces 0 cs = ps ++ .plain b.char :: pieces 0 b.after ∧ b.offset = bytes (written ps) ∧
      clean b.before = Text.trim (shown ps) ∧ (∀ ch ∈ shown ps, mode.isBoundary ch = false) ∧
      mode.isBoundary b.char = true := by
  obtain ⟨ps, hr, hspacing⟩ := (Cursor.ofText cs).reads_skipTrivia
  obtain ⟨qs, hr', hwritten, hqs, hend⟩ :=
    Cursor.reads_stretch mode.isBoundary (Cursor.ofText cs).skipTrivia
  have hread := hr.trans hr'
  unfold boundary? at h
  dsimp only at h
  split at h
  · simp at h
  · rename_i c after hrest
    obtain rfl := by simpa using h.symm
    rcases hend with hnone | ⟨ch, c', hsome, hch⟩
    · rw [Cursor.next?_eq_none_iff.mp hnone] at hrest
      simp at hrest
    · have htext := Cursor.text_append_of_next? hsome
      rw [hrest] at htext
      obtain ⟨rfl, rfl⟩ : ch = c ∧ c'.rest = after := by simpa [Piece.text] using htext
      have hparens : c'.parens = 0 := Cursor.parens_of_brace hsome (boundary_cases hch)
      refine ⟨ps ++ qs, ?_, ?_, ?_, ?_, hch⟩
      · have hpieces := hread.pieces
        rw [(Cursor.Reads.of_next? hsome).pieces, Cursor.pieces, Cursor.pieces, hparens] at hpieces
        exact hpieces
      · show Location.offset _ = _
        rw [hread.location, Location.offset_past]
        exact Nat.zero_add _
      · rw [hwritten, clean, Cursor.stripComments_written hr' (by simp [Cursor.ofText]), shown_append,
          trim_append_of_blank fun ch hch => isBlank_of_isSpacing (hspacing ch hch)]
      · intro ch hch
        rw [shown_append] at hch
        rcases List.mem_append.mp hch with hch | hch
        · exact isBoundary_of_isSpacing (hspacing ch hch) mode
        · exact hqs ch hch

end

/-! ### Parts of a sheet -/

/-- The marks of a part of a sheet that stands behind the text `front`. -/
def marksBehind (front cs : List Char) : List (Char × Location) :=
  Scan.marks .char (.past .char .start front) (pieces 0 cs)

theorem marksBehind_nil (source : String) : marksBehind [] source.toList = sheetMarks source := rfl

theorem map_fst_marksBehind (front cs : List Char) :
    (marksBehind front cs).map Prod.fst = Scan.stripComments cs :=
  Cursor.map_fst_marks_pieces .char _ cs

/-- A character that is a piece of its own cuts the marks of a part in two. -/
theorem marksBehind_of_pieces (front : List Char) {cs rest : List Char} {ps : List Piece} {c : Char}
    (h : pieces 0 cs = ps ++ .plain c :: pieces 0 rest) :
    cs = written ps ++ c :: rest ∧
      marksBehind front cs = marksBehind front (written ps)
        ++ (c, .past .char .start (front ++ written ps))
          :: marksBehind (front ++ written ps ++ [c]) rest := by
  have htext := written_pieces 0 cs
  rw [h, written_append, written_cons, written_pieces] at htext
  refine ⟨htext.symm, ?_⟩
  unfold marksBehind
  rw [h, pieces_of_append h, marks_append]
  simp only [Location.past_append]
  rfl

/-- The first boundary of a part, in its marks. -/
theorem marksBehind_of_boundary? {mode : ScanMode} {cs : List Char} {b : Boundary}
    (front : List Char) (h : boundary? mode.isBoundary cs = some b) :
    ∃ lead, cs = lead ++ b.char :: b.after ∧ b.offset = bytes lead ∧
      mode.isBoundary b.char = true ∧
      marksBehind front cs = marksBehind front lead ++ (b.char, .past .char .start (front ++ lead))
        :: marksBehind (front ++ lead ++ [b.char]) b.after ∧
      (∀ m ∈ marksBehind front lead, mode.isBoundary m.1 = false) ∧
      trimmed ((marksBehind front lead).map Prod.fst) = String.ofList (clean b.before) := by
  obtain ⟨ps, hps, hoffset, hclean, hshown, hchar⟩ := pieces_of_boundary? h
  obtain ⟨hcs, hmarks⟩ := marksBehind_of_pieces front hps
  refine ⟨written ps, hcs, hoffset, hchar, hmarks, ?_, ?_⟩
  · unfold marksBehind
    rw [pieces_of_append hps]
    intro m hm
    exact hshown _ (mem_shown_of_mem_marks hm)
  · unfold marksBehind
    rw [pieces_of_append hps, map_fst_marks, trimmed, hclean]

/-- The brace that belongs to one in a text is the end of the block behind it. -/
theorem matchingBrace?_append (front after : List Char) :
    matchingBrace? (String.ofList (front ++ '{' :: after)) (bytes front)
      = (closing? 0 (marksBehind (front ++ ['{']) after)).map (·.place.offset) := by
  rw [matchingBrace?_eq_closingBrace, (Cursor.closingBrace_eq _ 0).offset]
  rfl

/-- A block is cut out of the text behind its opening brace. -/
theorem cutOut_closing (opening : Nat) (inside rest : List Char) :
    cutOut (opening + 1 + bytes inside - (opening + 1)) (inside ++ '}' :: rest)
      = (inside, rest) := by
  rw [Nat.add_sub_cancel_left]
  simp [cutOut]

/-- The text behind an opening brace never closes the block, or it is the inside of the block, the
closing brace and the text after it, wherever it stands. -/
theorem closing_cases (after : List Char) :
    (∀ front, closing? 0 (marksBehind front after) = none) ∨
      ∃ inside rest, after = inside ++ '}' :: rest ∧
        ∀ front, closing? 0 (marksBehind front after)
          = some ⟨marksBehind front inside, .past .char .start (front ++ inside),
              marksBehind (front ++ inside ++ ['}']) rest⟩ := by
  rcases hc : closing? 0 (marksBehind [] after) with _ | c
  · refine Or.inl fun front => closing?_eq_none_of_chars ?_ hc
    rw [map_fst_marksBehind, map_fst_marksBehind]
  · refine Or.inr ?_
    have hms := closing?_eq_some hc
    obtain ⟨qs, rs, hps, hinside, -, -⟩ := exists_of_marks_eq hms
    have hrs : pieces 0 (written rs) = rs := by
      have hsplit : pieces 0 after = (qs ++ [.plain '}']) ++ rs := by simp [hps]
      have hrest := pieces_written_of_append hsplit
      rwa [shown_append, List.foldl_append] at hrest
    have hqs := pieces_of_append hps
    rw [← hrs] at hps
    refine ⟨written qs, written rs, (marksBehind_of_pieces [] hps).1, ?_⟩
    intro front
    rw [hms] at hc
    rw [(marksBehind_of_pieces front hps).2]
    refine closing?_of_chars ?_ hc
    rw [← hinside, marksBehind, hqs, map_fst_marks, map_fst_marks]

/-- So the closing brace is found where the inside ends, in every text that goes on like this. -/
theorem matchingBrace?_cases (after : List Char) :
    ((∀ front, closing? 0 (marksBehind front after) = none) ∧
        ∀ front, matchingBrace? (String.ofList (front ++ '{' :: after)) (bytes front) = none) ∨
      ∃ inside rest, after = inside ++ '}' :: rest ∧
        (∀ front, closing? 0 (marksBehind front after)
          = some ⟨marksBehind front inside, .past .char .start (front ++ inside),
              marksBehind (front ++ inside ++ ['}']) rest⟩) ∧
        ∀ front, matchingBrace? (String.ofList (front ++ '{' :: after)) (bytes front)
          = some (bytes front + 1 + bytes inside) := by
  rcases closing_cases after with hnone | ⟨inside, rest, hafter, hsome⟩
  · refine Or.inl ⟨hnone, ?_⟩
    intro front
    rw [matchingBrace?_append, hnone]
    rfl
  · refine Or.inr ⟨inside, rest, hafter, hsome, ?_⟩
    intro front
    rw [matchingBrace?_append, hsome, Option.map_some]
    dsimp only
    rw [Location.offset_past, bytes_append, bytes_append]
    exact congrArg some (by simp [Location.start, Char.utf8Size])

/-! ### The recursion, by the first boundary -/

section

variable {source selector : String} {base close : Nat} {cs : List Char} {b : Boundary}

theorem blocks_of_none (h : boundary? ScanMode.nested.isBoundary cs = none) :
    blocks source selector base cs = ⟨[], []⟩ := by
  rw [blocks]
  split <;> rename_i hn <;> rw [h] at hn
  · simp at hn

theorem blocks_of_other (h : boundary? ScanMode.nested.isBoundary cs = some b)
    (hb : b.char ≠ '{') :
    blocks source selector base cs = blocks source selector (base + b.offset + 1) b.after := by
  rw [blocks]
  split <;> rename_i hn <;> rw [h] at hn
  · simp at hn
  · obtain rfl := by simpa using hn
    rw [if_neg hb]

theorem blocks_of_unclosed (h : boundary? ScanMode.nested.isBoundary cs = some b)
    (hb : b.char = '{') (hc : matchingBrace? (String.ofList cs) b.offset = none) :
    blocks source selector base cs = ⟨[], []⟩ := by
  rw [blocks]
  split <;> rename_i hn <;> rw [h] at hn
  · obtain rfl := by simpa using hn
    rw [if_pos hb, hc]

theorem blocks_of_closed (h : boundary? ScanMode.nested.isBoundary cs = some b)
    (hb : b.char = '{') (hc : matchingBrace? (String.ofList cs) b.offset = some close) :
    blocks source selector base cs =
      let cut := cutOut (close - (b.offset + 1)) b.after
      let nested := String.ofList (clean b.before)
      let full := Selector.resolve selector nested
      (if nested = "" then
        ⟨[], [.degenerateNestedSelector (.ofOffset source (base + b.offset))]⟩
      else
        ⟨Rule.ofBlock full (extractDeclarations (String.ofList cut.1)), []⟩
          ++ blocks source full (base + b.offset + 1) cut.1)
        ++ blocks source selector (base + close + 1) cut.2 := by
  rw [blocks]
  split <;> rename_i hn <;> rw [h] at hn
  · simp at hn
  · obtain rfl := by simpa using hn
    rw [if_pos hb, hc]

theorem sheet_of_none (h : boundary? ScanMode.topLevel.isBoundary cs = none) :
    sheet source base cs = ⟨[], []⟩ := by
  rw [sheet]
  split <;> rename_i hn <;> rw [h] at hn
  · simp at hn

theorem sheet_of_stray (h : boundary? ScanMode.topLevel.isBoundary cs = some b)
    (hb : b.char ≠ '{') :
    sheet source base cs = ⟨[], [.strayClosingBrace (.ofOffset source (base + b.offset))]⟩
      ++ sheet source (base + b.offset + 1) b.after := by
  rw [sheet]
  split <;> rename_i hn <;> rw [h] at hn
  · simp at hn
  · obtain rfl := by simpa using hn
    rw [if_neg hb]

theorem sheet_of_unclosed (h : boundary? ScanMode.topLevel.isBoundary cs = some b)
    (hb : b.char = '{') (hc : matchingBrace? source (base + b.offset) = none) :
    sheet source base cs
      = ⟨[], [.unbalancedBraces (.ofOffset source (base + b.offset))]⟩ := by
  rw [sheet]
  split <;> rename_i hn <;> rw [h] at hn
  · simp at hn
  · obtain rfl := by simpa using hn
    dsimp only
    rw [if_pos hb, hc]

theorem sheet_of_closed (h : boundary? ScanMode.topLevel.isBoundary cs = some b)
    (hb : b.char = '{') (hc : matchingBrace? source (base + b.offset) = some close) :
    sheet source base cs =
      let place := Location.ofOffset source (base + b.offset)
      let cut := cutOut (close - (base + b.offset + 1)) b.after
      let selector := String.ofList (clean b.before)
      (match selector.toList with
        | [] => ⟨[], [.emptySelector place]⟩
        | '@' :: afterSign =>
          let name := String.ofList (afterSign.takeWhile fun c => !Text.isBlank c && c ≠ '(')
          ⟨[], [.atRuleDiscarded name place]⟩
        | _ =>
          ⟨Rule.ofBlock selector (extractDeclarations (String.ofList cut.1)), []⟩
            ++ blocks source selector (base + b.offset + 1) cut.1)
        ++ sheet source (close + 1) cut.2 := by
  rw [sheet]
  split <;> rename_i hn <;> rw [h] at hn
  · simp at hn
  · obtain rfl := by simpa using hn
    dsimp only
    rw [if_pos hb, hc]

end

/-! ### The recursion reads the outline -/

theorem bytes_of_boundary {mode : ScanMode} {c : Char} (h : mode.isBoundary c = true)
    (cs : List Char) : bytes (cs ++ [c]) = bytes cs + 1 := by
  rw [bytes_append]
  rcases boundary_cases h with rfl | rfl | rfl <;> simp [Char.utf8Size]

theorem boundary_closing : ScanMode.nested.isBoundary '}' = true := rfl

theorem ofOffset_of_part {source : String} {front lead rest : List Char}
    (h : source = String.ofList (front ++ (lead ++ rest))) :
    Location.ofOffset source (bytes front + bytes lead) = .past .char .start (front ++ lead) := by
  rw [h, ← List.append_assoc, ← bytes_append, Location.ofOffset_append]

theorem extractDeclarations_ofList (front cs : List Char) :
    extractDeclarations (String.ofList cs) = (Content.read (marksBehind front cs)).own :=
  extractDeclarations_eq_own (by rw [map_fst_marksBehind, String.toList_ofList])

theorem flattened_declared (selector : String) (text : List Char) (rest : Content Location) :
    (Content.declared text rest).flattened selector = rest.flattened selector := by
  rw [Content.flattened, Content.rules_declared, Content.reports_declared]
  rfl

theorem flattened_block (selector nested : String) (x : Location) (inner rest : Content Location) :
    (Content.block nested x inner rest).flattened selector =
      (if nested = "" then ⟨[], [.degenerateNestedSelector x]⟩
        else
          ⟨Rule.ofBlock (Selector.resolve selector nested) inner.own, []⟩
            ++ inner.flattened (Selector.resolve selector nested))
        ++ rest.flattened selector := by
  simp only [Content.flattened, Content.rules, Content.reports]
  split <;> rfl

/-- The blocks in a part of a sheet are those of its content. -/
theorem blocks_eq {source : String} (selector : String) {front cs back : List Char}
    (h : source = String.ofList (front ++ (cs ++ back))) :
    blocks source selector (bytes front) cs
      = (Content.read (marksBehind front cs)).flattened selector := by
  induction hn : cs.length using Nat.strong_induction_on generalizing selector front cs back with
  | _ n ih =>
      rcases hb : boundary? ScanMode.nested.isBoundary cs with _ | b
      · have hms : ∀ m ∈ marksBehind front cs, ScanMode.nested.isBoundary m.1 = false := by
          intro m hm
          exact forall_of_boundary?_eq_none hb _ (mem_shown_of_mem_marks hm)
        rw [blocks_of_none hb, Content.read_of_forall hms, flattened_declared]
        rfl
      · obtain ⟨lead, hcs, hoffset, hchar, hmarks, hpre, hselector⟩ :=
          marksBehind_of_boundary? front hb
        have hbase : bytes front + b.offset + 1 = bytes (front ++ lead ++ [b.char]) := by
          rw [bytes_of_boundary hchar, bytes_append, hoffset]
        have hlt := length_after_lt hb
        by_cases hopen : b.char = '{'
        · rw [hopen] at hcs hmarks hbase
          rw [hmarks]
          rcases matchingBrace?_cases b.after with
            ⟨hnone, hbrace⟩ | ⟨inside, rest, hafter, hsome, hbrace⟩
          · have hunclosed := hbrace lead
            rw [← hcs, ← hoffset] at hunclosed
            rw [blocks_of_unclosed hb hopen hunclosed, Content.read_of_unclosed hpre (hnone _)]
            rfl
          · have hclosed := hbrace lead
            rw [← hcs, ← hoffset] at hclosed
            have hplace : Location.ofOffset source (bytes front + b.offset)
                = .past .char .start (front ++ lead) := by
              rw [hoffset]
              exact ofOffset_of_part (by rw [h, hcs, List.append_assoc])
            have hlength := congrArg List.length hafter
            rw [List.length_append, List.length_cons] at hlength
            have hinside : ∀ nested, blocks source nested (bytes (front ++ lead ++ ['{'])) inside
                = (Content.read (marksBehind (front ++ lead ++ ['{']) inside)).flattened nested :=
              fun nested => ih _ (by omega) nested
                (show source = String.ofList
                    (front ++ lead ++ ['{'] ++ (inside ++ ('}' :: rest ++ back))) by
                  simp [h, hcs, hafter]) rfl
            have hrest : blocks source selector
                  (bytes (front ++ lead ++ ['{'] ++ inside ++ ['}'])) rest
                = (Content.read (marksBehind (front ++ lead ++ ['{'] ++ inside ++ ['}'])
                    rest)).flattened selector :=
              ih _ (by omega) selector
                (show source = String.ofList
                    (front ++ lead ++ ['{'] ++ inside ++ ['}'] ++ (rest ++ back)) by
                  simp [h, hcs, hafter]) rfl
            have hnext : bytes front + (b.offset + 1 + bytes inside) + 1
                = bytes (front ++ lead ++ ['{'] ++ inside ++ ['}']) := by
              rw [bytes_of_boundary boundary_closing, bytes_append _ inside, ← hbase]
              omega
            rw [blocks_of_closed hb hopen hclosed, Content.read_of_block hpre (hsome _),
              flattened_block, hselector, ← hplace, hafter, cutOut_closing]
            dsimp only
            rw [hbase, hnext, hinside, hrest,
              extractDeclarations_ofList (front ++ lead ++ ['{']) inside]
        · have hrest := ih b.after.length (hn ▸ hlt) selector
            (show source = String.ofList (front ++ lead ++ [b.char] ++ (b.after ++ back)) by
              simp [h, hcs]) rfl
          rw [blocks_of_other hb hopen, hbase, hrest, hmarks]
          rcases nested_boundary hchar with hch | hch | hch
          · exact absurd hch hopen
          · rw [hch, Content.read_of_stray hpre, flattened_declared]
          · rw [hch, Content.read_of_semicolon hpre, flattened_declared]

theorem flattened_cons_block (selector : String) (x : Location) (content : Content Location)
    (o : Outline Location) :
    Outline.flattened (.block selector x content :: o) =
      (match selector.toList with
        | [] => ⟨[], [.emptySelector x]⟩
        | '@' :: afterSign =>
          let name := String.ofList (afterSign.takeWhile fun c => !Text.isBlank c && c ≠ '(')
          ⟨[], [.atRuleDiscarded name x]⟩
        | _ => ⟨Rule.ofBlock selector content.own, []⟩ ++ content.flattened selector)
        ++ o.flattened := by
  rw [Outline.flattened, Outline.rules_cons, Outline.reports_cons]
  split
  · rename_i hsel
    simp only [Item.rules, Item.reports, hsel]
    rfl
  · rename_i hsel
    simp only [Item.rules, Item.reports, hsel]
    rfl
  · rename_i hnil hat
    have hne : selector ≠ "" := by
      rintro rfl
      exact hnil rfl
    rw [Item.rules_of_selector hne hat, Item.reports_of_selector hne hat]
    rfl

/-- What stands outside all blocks in the last part of a sheet is the outline of that part. -/
theorem sheet_eq {source : String} {front cs : List Char}
    (h : source = String.ofList (front ++ cs)) :
    sheet source (bytes front) cs = (Outline.read (marksBehind front cs)).flattened := by
  induction hn : cs.length using Nat.strong_induction_on generalizing front cs with
  | _ n ih =>
      rcases hb : boundary? ScanMode.topLevel.isBoundary cs with _ | b
      · have hms : ∀ m ∈ marksBehind front cs, ScanMode.topLevel.isBoundary m.1 = false := by
          intro m hm
          exact forall_of_boundary?_eq_none hb _ (mem_shown_of_mem_marks hm)
        rw [sheet_of_none hb, Outline.read_of_forall hms]
        rfl
      · obtain ⟨lead, hcs, hoffset, hchar, hmarks, hpre, hselector⟩ :=
          marksBehind_of_boundary? front hb
        have hbase : bytes front + b.offset + 1 = bytes (front ++ lead ++ [b.char]) := by
          rw [bytes_of_boundary hchar, bytes_append, hoffset]
        have hplace : Location.ofOffset source (bytes front + b.offset)
            = .past .char .start (front ++ lead) := by
          rw [hoffset]
          exact ofOffset_of_part (by rw [h, hcs])
        have hlt := length_after_lt hb
        by_cases hopen : b.char = '{'
        · rw [hopen] at hcs hmarks hbase
          have hsource : source = String.ofList (front ++ lead ++ '{' :: b.after) := by
            rw [h, hcs, List.append_assoc]
          rw [hmarks]
          rcases matchingBrace?_cases b.after with
            ⟨hnone, hbrace⟩ | ⟨inside, rest, hafter, hsome, hbrace⟩
          · have hunclosed := hbrace (front ++ lead)
            rw [← hsource, bytes_append, ← hoffset] at hunclosed
            rw [sheet_of_unclosed hb hopen hunclosed, Outline.read_of_unclosed hpre (hnone _), hplace]
            rfl
          · have hclosed := hbrace (front ++ lead)
            rw [← hsource, bytes_append, ← hoffset] at hclosed
            have hlength := congrArg List.length hafter
            rw [List.length_append, List.length_cons] at hlength
            have hinside : ∀ selector, blocks source selector (bytes (front ++ lead ++ ['{'])) inside
                = (Content.read (marksBehind (front ++ lead ++ ['{']) inside)).flattened selector :=
              fun selector => blocks_eq selector
                (show source = String.ofList (front ++ lead ++ ['{'] ++ (inside ++ '}' :: rest)) by
                  simp [hsource, hafter])
            have hrest : sheet source (bytes (front ++ lead ++ ['{'] ++ inside ++ ['}'])) rest
                = (Outline.read (marksBehind (front ++ lead ++ ['{'] ++ inside ++ ['}'])
                    rest)).flattened :=
              ih _ (by omega) (by simp [hsource, hafter]) rfl
            have hnext : bytes front + b.offset + 1 + bytes inside + 1
                = bytes (front ++ lead ++ ['{'] ++ inside ++ ['}']) := by
              rw [bytes_of_boundary boundary_closing, bytes_append _ inside, ← hbase]
            rw [sheet_of_closed hb hopen hclosed, Outline.read_of_block hpre (hsome _),
              flattened_cons_block, hselector, ← hplace, hafter, cutOut_closing]
            dsimp only
            rw [hnext, hbase, hinside, hrest,
              extractDeclarations_ofList (front ++ lead ++ ['{']) inside]
        · obtain hch : b.char = '}' := (topLevel_boundary hchar).resolve_left hopen
          have hrest := ih b.after.length (hn ▸ hlt)
            (show source = String.ofList (front ++ lead ++ [b.char] ++ b.after) by simp [h, hcs]) rfl
          rw [sheet_of_stray hb hopen, hbase, hrest, hmarks, hplace, hch, Outline.read_of_stray hpre]
          rfl

end Recursion

/-- **Flattening is the recursion over the blocks of a sheet.** -/
theorem flatten_eq_recursion (source : String) :
    flatten source = Recursion.sheet source 0 source.toList := by
  rw [flatten_eq_outline, ← Recursion.marksBehind_nil, ← Scan.bytes_nil, Recursion.sheet_eq (by simp)]

end FlatSheet
