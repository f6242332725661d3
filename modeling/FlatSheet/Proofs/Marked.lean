/-
Marked text, and where the blocks in it end.

Seen without its comments a sheet is a sequence of characters, and only three of them
give it shape: the two braces, and the semicolon inside blocks.  Here that shape is read
off such a sequence.  Each character carries a mark, which is its place when a real
sheet is read.  Nothing is ever asked of a mark, so that what is said here holds of
places, of other places, and of no places at all.

A marked text can be cut at its first boundary, and a block in it ends where the braces
behind its opening one first balance.  Every text is one of few kinds then, according to
what its first boundary is; `nested_induction` and `topLevel_induction` argue along them.
-/
import FlatSheet.Event
import Mathlib.Data.List.TakeWhile

namespace FlatSheet

variable {α β : Type}

namespace Marked

/-- Cuts marked text in front of its first boundary. -/
def cut (isBoundary : Char → Bool) (ms : List (Char × α)) : List Char × List (Char × α) :=
  ((ms.takeWhile fun m => !isBoundary m.1).map Prod.fst, ms.dropWhile fun m => !isBoundary m.1)

/-- A block that closes, from behind its opening brace: what stands inside, the mark of the closing
brace, and what comes after it. -/
structure Closing (α : Type) where
  inside : List (Char × α)
  place : α
  after : List (Char × α)

/-- The same block with one more character in front. -/
def Closing.cons (m : Char × α) (c : Closing α) : Closing α := { c with inside := m :: c.inside }

/-- Looks for the end of a block, past `inner` further blocks that are open inside it. -/
def closing? (inner : Nat) : List (Char × α) → Option (Closing α)
  | [] => none
  | (c, x) :: ms =>
    if c = '{' then (closing? (inner + 1) ms).map (.cons (c, x))
    else if c = '}' then
      match inner with
      | 0 => some ⟨[], x, ms⟩
      | outer + 1 => (closing? outer ms).map (.cons (c, x))
    else (closing? inner ms).map (.cons (c, x))

/-! ### Cutting -/

theorem cut_length_le (isBoundary : Char → Bool) (ms : List (Char × α)) :
    (cut isBoundary ms).2.length ≤ ms.length :=
  (List.dropWhile_sublist _).length_le

/-- Text without a boundary is not cut. -/
theorem cut_of_forall {isBoundary : Char → Bool} {ms : List (Char × α)}
    (h : ∀ m ∈ ms, isBoundary m.1 = false) : cut isBoundary ms = (ms.map Prod.fst, []) := by
  have hall : ∀ m ∈ ms, (!isBoundary m.1) = true := by
    intro m hm
    simp [h m hm]
  unfold cut
  rw [List.takeWhile_eq_self_iff.mpr hall, List.dropWhile_eq_nil_iff.mpr hall]

/-- Text is cut at its first boundary. -/
theorem cut_append_cons {isBoundary : Char → Bool} {pre rest : List (Char × α)} {c : Char} {x : α}
    (h : ∀ m ∈ pre, isBoundary m.1 = false) (hc : isBoundary c = true) :
    cut isBoundary (pre ++ (c, x) :: rest) = (pre.map Prod.fst, (c, x) :: rest) := by
  have hall : ∀ m ∈ pre, (!isBoundary m.1) = true := by
    intro m hm
    simp [h m hm]
  unfold cut
  rw [List.takeWhile_append_of_pos hall, List.dropWhile_append_of_pos hall]
  simp [hc]

theorem forall_map {isBoundary : Char → Bool} {ms : List (Char × α)} (f : α → β)
    (h : ∀ m ∈ ms, isBoundary m.1 = false) :
    ∀ m ∈ ms.map (Prod.map id f), isBoundary m.1 = false := by
  intro m' hm'
  obtain ⟨m, hm, rfl⟩ := List.mem_map.mp hm'
  exact h m hm

theorem forall_map_fst {isBoundary : Char → Bool} {ms : List (Char × α)}
    (h : ∀ m ∈ ms, isBoundary m.1 = false) : ∀ c ∈ ms.map Prod.fst, isBoundary c = false := by
  intro c hc
  obtain ⟨m, hm, rfl⟩ := List.mem_map.mp hc
  exact h m hm

@[simp] theorem map_fst_map (f : α → β) (ms : List (Char × α)) :
    (ms.map (Prod.map id f)).map Prod.fst = ms.map Prod.fst := by
  rw [List.map_map]
  rfl

/-- Where all marks are the same, only the characters tell two texts apart. -/
theorem map_const (x : β) (ms : List (Char × α)) :
    ms.map (Prod.map id fun _ => x) = (ms.map Prod.fst).map fun c => (c, x) := by
  rw [List.map_map]
  rfl

/-! ### Where a block ends -/

@[simp] theorem closing?_cons_opening (inner : Nat) (x : α) (ms : List (Char × α)) :
    closing? inner (('{', x) :: ms) = (closing? (inner + 1) ms).map (.cons ('{', x)) := rfl

@[simp] theorem closing?_zero_cons_closing (x : α) (ms : List (Char × α)) :
    closing? 0 (('}', x) :: ms) = some ⟨[], x, ms⟩ := rfl

@[simp] theorem closing?_succ_cons_closing (outer : Nat) (x : α) (ms : List (Char × α)) :
    closing? (outer + 1) (('}', x) :: ms) = (closing? outer ms).map (.cons ('}', x)) := rfl

theorem closing?_cons_of_ne {c : Char} (ho : c ≠ '{') (hc : c ≠ '}') (inner : Nat) (x : α)
    (ms : List (Char × α)) :
    closing? inner ((c, x) :: ms) = (closing? inner ms).map (.cons (c, x)) := by
  show (if c = '{' then _ else if c = '}' then _ else _) = _
  rw [if_neg ho, if_neg hc]

theorem closing?_eq_some {inner : Nat} {ms : List (Char × α)} {c : Closing α}
    (h : closing? inner ms = some c) : ms = c.inside ++ ('}', c.place) :: c.after := by
  induction ms generalizing inner c with
  | nil => simp [closing?] at h
  | cons m ms ih =>
      obtain ⟨ch, x⟩ := m
      have hmap : ∀ k, (closing? k ms).map (.cons (ch, x)) = some c →
          (ch, x) :: ms = c.inside ++ ('}', c.place) :: c.after := by
        intro k hk
        obtain ⟨d, hd, rfl⟩ := Option.map_eq_some_iff.mp hk
        rw [ih hd]
        rfl
      by_cases ho : ch = '{'
      · subst ho
        exact hmap _ h
      · by_cases hc : ch = '}'
        · subst hc
          rcases inner with _ | outer
          · obtain rfl := by simpa using h
            rfl
          · exact hmap _ h
        · rw [closing?_cons_of_ne ho hc] at h
          exact hmap _ h

/-- Where a block closes depends on the characters in it only. -/
theorem closing?_of_chars {inner : Nat} {ms rest : List (Char × α)} {ns rest' : List (Char × β)}
    {x : α} {y : β} (h : ms.map Prod.fst = ns.map Prod.fst)
    (hc : closing? inner (ms ++ ('}', x) :: rest) = some ⟨ms, x, rest⟩) :
    closing? inner (ns ++ ('}', y) :: rest') = some ⟨ns, y, rest'⟩ := by
  induction ms generalizing inner ns with
  | nil =>
      obtain rfl : ns = [] := by simpa using h.symm
      rcases inner with _ | outer
      · rfl
      · obtain ⟨d, -, hd⟩ := Option.map_eq_some_iff.mp hc
        simp [Closing.cons] at hd
  | cons m ms ih =>
      obtain ⟨ch, a⟩ := m
      obtain ⟨n, ns, rfl⟩ := List.exists_cons_of_ne_nil (l := ns) (by rintro rfl; simp at h)
      obtain ⟨ch', b⟩ := n
      obtain ⟨rfl, hns⟩ := by simpa using h
      -- The same count goes on behind the first character of both.
      have hmap : ∀ k,
          (closing? k (ms ++ ('}', x) :: rest)).map (Closing.cons (ch, a))
            = some ⟨(ch, a) :: ms, x, rest⟩ →
          (closing? k (ns ++ ('}', y) :: rest')).map (Closing.cons (ch, b))
            = some ⟨(ch, b) :: ns, y, rest'⟩ := by
        intro k hk
        obtain ⟨⟨_, _, _⟩, hd, he⟩ := Option.map_eq_some_iff.mp hk
        obtain ⟨rfl, rfl, rfl⟩ := by simpa [Closing.cons] using he
        rw [ih (by simpa using hns) hd]
        rfl
      by_cases ho : ch = '{'
      · subst ho
        exact hmap _ hc
      · by_cases hcl : ch = '}'
        · subst hcl
          rcases inner with _ | outer
          · simp at hc
          · exact hmap _ hc
        · rw [List.cons_append, closing?_cons_of_ne ho hcl] at hc ⊢
          exact hmap _ hc

theorem closing?_eq_none_of_chars {inner : Nat} {ms : List (Char × α)} {ns : List (Char × β)}
    (h : ms.map Prod.fst = ns.map Prod.fst) (hc : closing? inner ms = none) :
    closing? inner ns = none := by
  rcases hn : closing? inner ns with _ | c
  · rfl
  · exfalso
    have hns := closing?_eq_some hn
    rw [hns] at hn
    rw [hns, List.map_append] at h
    obtain ⟨before, rest, rfl, hbefore, hrest⟩ := List.map_eq_append_iff.mp h
    obtain ⟨⟨ch, x⟩, after, rfl, hch, -⟩ := List.map_eq_cons_iff.mp hrest
    obtain rfl : ch = '}' := hch
    rw [closing?_of_chars hbefore.symm hn] at hc
    simp at hc

/-- What follows a block that closes does not change where it closes. -/
theorem closing?_inside {inner : Nat} {ms : List (Char × α)} {c : Closing α}
    (h : closing? inner ms = some c) (after : List (Char × α)) :
    closing? inner (c.inside ++ ('}', c.place) :: after) = some { c with after } := by
  have hms := closing?_eq_some h
  rw [hms] at h
  exact closing?_of_chars rfl h

/-- Text without braces is passed over. -/
theorem closing?_append_of_forall {pre : List (Char × α)}
    (h : ∀ m ∈ pre, m.1 ≠ '{' ∧ m.1 ≠ '}') (inner : Nat) (ms : List (Char × α)) :
    closing? inner (pre ++ ms)
      = (closing? inner ms).map fun c => { c with inside := pre ++ c.inside } := by
  induction pre with
  | nil => simp
  | cons m pre ih =>
      obtain ⟨c, x⟩ := m
      obtain ⟨ho, hc⟩ := h (c, x) (by simp)
      rw [List.cons_append, closing?_cons_of_ne ho hc, ih fun m hm => h m (by simp [hm]),
        Option.map_map]
      rfl

theorem closing?_eq_none_of_forall {ms : List (Char × α)}
    (h : ∀ m ∈ ms, m.1 ≠ '{' ∧ m.1 ≠ '}') (inner : Nat) : closing? inner ms = none := by
  rw [← List.append_nil ms, closing?_append_of_forall h]
  rfl

/-- Several blocks close one after the other, the innermost first. -/
theorem closing?_add_succ (inner outer : Nat) (ms : List (Char × α)) :
    closing? (inner + 1 + outer) ms
      = (closing? inner ms).bind fun c => (closing? outer c.after).map fun d =>
          { d with inside := c.inside ++ ('}', c.place) :: d.inside } := by
  induction ms generalizing inner with
  | nil => rfl
  | cons m ms ih =>
      obtain ⟨ch, x⟩ := m
      have hmap : ∀ k : Nat, (closing? (k + 1 + outer) ms).map (Closing.cons (ch, x))
          = ((closing? k ms).map (Closing.cons (ch, x))).bind fun c =>
              (closing? outer c.after).map fun d =>
                { d with inside := c.inside ++ ('}', c.place) :: d.inside } := by
        intro k
        rw [ih k]
        cases closing? k ms with
        | none => rfl
        | some c => simp [Closing.cons, Function.comp_def]
      by_cases ho : ch = '{'
      · subst ho
        rw [closing?_cons_opening, closing?_cons_opening, ← hmap (inner + 1)]
        congr 2
        omega
      · by_cases hc : ch = '}'
        · subst hc
          rcases inner with _ | inner
          · rw [show 0 + 1 + outer = outer + 1 by omega]
            rfl
          · rw [show inner + 1 + 1 + outer = inner + 1 + outer + 1 by omega]
            exact hmap inner
        · rw [closing?_cons_of_ne ho hc, closing?_cons_of_ne ho hc]
          exact hmap inner

/-- A block that contains another closes after it. -/
theorem closing?_succ (outer : Nat) (ms : List (Char × α)) :
    closing? (outer + 1) ms
      = (closing? 0 ms).bind fun c => (closing? outer c.after).map fun d =>
          { d with inside := c.inside ++ ('}', c.place) :: d.inside } := by
  rw [← closing?_add_succ 0 outer ms]
  congr 1
  omega

theorem closing?_map (inner : Nat) (f : α → β) (ms : List (Char × α)) :
    closing? inner (ms.map (Prod.map id f)) = (closing? inner ms).map fun c =>
      ⟨c.inside.map (Prod.map id f), f c.place, c.after.map (Prod.map id f)⟩ := by
  induction ms generalizing inner with
  | nil => rfl
  | cons m ms ih =>
      obtain ⟨ch, x⟩ := m
      rw [List.map_cons, Prod.map_apply]
      unfold closing?
      simp only [ih, id_eq]
      split
      · simp [Function.comp_def, Closing.cons]
      · split
        · rcases inner with _ | outer
          · rfl
          · simp [Function.comp_def, Closing.cons]
        · simp [Function.comp_def, Closing.cons]

theorem inside_length_lt {inner : Nat} {ms : List (Char × α)} {c : Closing α}
    (h : closing? inner ms = some c) : c.inside.length < ms.length := by
  have := congrArg List.length (closing?_eq_some h)
  simp only [List.length_append, List.length_cons] at this
  omega

theorem after_length_lt {inner : Nat} {ms : List (Char × α)} {c : Closing α}
    (h : closing? inner ms = some c) : c.after.length < ms.length := by
  have := congrArg List.length (closing?_eq_some h)
  simp only [List.length_append, List.length_cons] at this
  omega

/-! ### Arguing along the boundaries of a text -/

variable {motive : List (Char × α) → Prop}

/-- Text has no boundary, or there is a first one. -/
theorem exists_boundary (isBoundary : Char → Bool) (ms : List (Char × α)) :
    (∀ m ∈ ms, isBoundary m.1 = false) ∨
      ∃ (pre : List (Char × α)) (c : Char) (x : α) (rest : List (Char × α)),
        ms = pre ++ (c, x) :: rest ∧ (∀ m ∈ pre, isBoundary m.1 = false) ∧ isBoundary c = true := by
  induction ms with
  | nil => exact Or.inl (by simp)
  | cons m ms ih =>
      obtain ⟨c, x⟩ := m
      cases hc : isBoundary c with
      | true => exact Or.inr ⟨[], c, x, ms, rfl, by simp, hc⟩
      | false =>
          rcases ih with h | ⟨pre, d, y, rest, rfl, hpre, hd⟩
          · exact Or.inl (List.forall_mem_cons.mpr ⟨hc, h⟩)
          · exact Or.inr ⟨(c, x) :: pre, d, y, rest, rfl, List.forall_mem_cons.mpr ⟨hc, hpre⟩, hd⟩

/-- The boundaries inside a block. -/
theorem nested_boundary {c : Char} (h : ScanMode.nested.isBoundary c = true) :
    c = '{' ∨ c = '}' ∨ c = ';' := by
  simpa [ScanMode.isBoundary, or_assoc] using h

/-- The boundaries outside all blocks. -/
theorem topLevel_boundary {c : Char} (h : ScanMode.topLevel.isBoundary c = true) :
    c = '{' ∨ c = '}' := by
  simpa [ScanMode.isBoundary] using h

/-- The boundaries in either mode. -/
theorem boundary_cases {mode : ScanMode} {c : Char} (h : mode.isBoundary c = true) :
    c = '{' ∨ c = '}' ∨ c = ';' := by
  cases mode with
  | topLevel => exact (topLevel_boundary h).imp_right Or.inl
  | nested => exact nested_boundary h

theorem ne_brace_of_nested {c : Char} (h : ScanMode.nested.isBoundary c = false) :
    c ≠ '{' ∧ c ≠ '}' := by
  simp only [ScanMode.isBoundary, Bool.or_eq_false_iff, decide_eq_false_iff_not] at h
  exact h.1

theorem ne_brace_of_topLevel {c : Char} (h : ScanMode.topLevel.isBoundary c = false) :
    c ≠ '{' ∧ c ≠ '}' := by
  simpa [ScanMode.isBoundary] using h

theorem ne_brace {mode : ScanMode} {c : Char} (h : mode.isBoundary c = false) :
    c ≠ '{' ∧ c ≠ '}' := by
  cases mode with
  | topLevel => exact ne_brace_of_topLevel h
  | nested => exact ne_brace_of_nested h

theorem topLevel_of_nested {c : Char} (h : ScanMode.nested.isBoundary c = false) :
    ScanMode.topLevel.isBoundary c = false := by
  simpa [ScanMode.isBoundary] using ne_brace_of_nested h

/-- Text inside a block is no boundary at all, or a text up to a semicolon, a stray brace or a block
that may or may not close, and what follows. -/
@[elab_as_elim]
theorem nested_induction
    (plain : ∀ ms, (∀ m ∈ ms, ScanMode.nested.isBoundary m.1 = false) → motive ms)
    (semicolon : ∀ pre x ms, (∀ m ∈ pre, ScanMode.nested.isBoundary m.1 = false) → motive ms →
      motive (pre ++ (';', x) :: ms))
    (stray : ∀ pre x ms, (∀ m ∈ pre, ScanMode.nested.isBoundary m.1 = false) → motive ms →
      motive (pre ++ ('}', x) :: ms))
    (block : ∀ pre x ms c, (∀ m ∈ pre, ScanMode.nested.isBoundary m.1 = false) →
      closing? 0 ms = some c → motive c.inside → motive c.after → motive (pre ++ ('{', x) :: ms))
    (unclosed : ∀ pre x ms, (∀ m ∈ pre, ScanMode.nested.isBoundary m.1 = false) →
      closing? 0 ms = none → motive (pre ++ ('{', x) :: ms)) :
    ∀ ms, motive ms := by
  intro ms
  induction hn : ms.length using Nat.strong_induction_on generalizing ms with
  | _ n ih =>
      rcases exists_boundary ScanMode.nested.isBoundary ms with
        h | ⟨pre, c, x, rest, rfl, hpre, hc⟩
      · exact plain ms h
      · have hlt : rest.length < n := by
          rw [← hn, List.length_append, List.length_cons]
          omega
        rcases nested_boundary hc with rfl | rfl | rfl
        · rcases hcl : closing? 0 rest with _ | d
          · exact unclosed pre x rest hpre hcl
          · exact block pre x rest d hpre hcl
              (ih _ (Nat.lt_trans (inside_length_lt hcl) hlt) _ rfl)
              (ih _ (Nat.lt_trans (after_length_lt hcl) hlt) _ rfl)
        · exact stray pre x rest hpre (ih _ hlt _ rfl)
        · exact semicolon pre x rest hpre (ih _ hlt _ rfl)

/-- Text outside all blocks has no brace at all, or is a text up to a stray brace or a block that may
or may not close, and what follows. -/
@[elab_as_elim]
theorem topLevel_induction
    (plain : ∀ ms, (∀ m ∈ ms, ScanMode.topLevel.isBoundary m.1 = false) → motive ms)
    (stray : ∀ pre x ms, (∀ m ∈ pre, ScanMode.topLevel.isBoundary m.1 = false) → motive ms →
      motive (pre ++ ('}', x) :: ms))
    (block : ∀ pre x ms c, (∀ m ∈ pre, ScanMode.topLevel.isBoundary m.1 = false) →
      closing? 0 ms = some c → motive c.after → motive (pre ++ ('{', x) :: ms))
    (unclosed : ∀ pre x ms, (∀ m ∈ pre, ScanMode.topLevel.isBoundary m.1 = false) →
      closing? 0 ms = none → motive (pre ++ ('{', x) :: ms)) :
    ∀ ms, motive ms := by
  intro ms
  induction hn : ms.length using Nat.strong_induction_on generalizing ms with
  | _ n ih =>
      rcases exists_boundary ScanMode.topLevel.isBoundary ms with
        h | ⟨pre, c, x, rest, rfl, hpre, hc⟩
      · exact plain ms h
      · have hlt : rest.length < n := by
          rw [← hn, List.length_append, List.length_cons]
          omega
        rcases topLevel_boundary hc with rfl | rfl
        · rcases hcl : closing? 0 rest with _ | d
          · exact unclosed pre x rest hpre hcl
          · exact block pre x rest d hpre hcl
              (ih _ (Nat.lt_trans (after_length_lt hcl) hlt) _ rfl)
        · exact stray pre x rest hpre (ih _ hlt _ rfl)

/-- A block that closes is text up to its closing brace, or text up to a semicolon or up to an inner
block that closes, and then a block that closes. -/
@[elab_as_elim]
theorem closing_induction {motive : ∀ (ms : List (Char × α)) (c : Closing α), closing? 0 ms = some c →
      Prop}
    (close : ∀ pre x rest h, (∀ m ∈ pre, ScanMode.nested.isBoundary m.1 = false) →
      motive (pre ++ ('}', x) :: rest) ⟨pre, x, rest⟩ h)
    (semicolon : ∀ pre x ms c hc h, (∀ m ∈ pre, ScanMode.nested.isBoundary m.1 = false) →
      motive ms c hc →
      motive (pre ++ (';', x) :: ms) { c with inside := pre ++ (';', x) :: c.inside } h)
    (block : ∀ pre x ms c d hc hd h, (∀ m ∈ pre, ScanMode.nested.isBoundary m.1 = false) →
      motive ms c hc → motive c.after d hd →
      motive (pre ++ ('{', x) :: ms)
        { d with inside := pre ++ ('{', x) :: (c.inside ++ ('}', c.place) :: d.inside) } h)
    (ms : List (Char × α)) (c : Closing α) (h : closing? 0 ms = some c) : motive ms c h := by
  induction hn : ms.length using Nat.strong_induction_on generalizing ms c with
  | _ n ih =>
      rcases exists_boundary ScanMode.nested.isBoundary ms with
        hms | ⟨pre, ch, x, rest, rfl, hpre, hch⟩
      · rw [closing?_eq_none_of_forall fun m hm => ne_brace_of_nested (hms m hm)] at h
        simp at h
      · have hlt : rest.length < n := by
          rw [← hn, List.length_append, List.length_cons]
          omega
        have hpass := h
        rw [closing?_append_of_forall (fun m hm => ne_brace_of_nested (hpre m hm))] at hpass
        obtain ⟨d, hd, rfl⟩ := Option.map_eq_some_iff.mp hpass
        rcases nested_boundary hch with rfl | rfl | rfl
        · rw [closing?_cons_opening, closing?_succ] at hd
          obtain ⟨e, he, rfl⟩ := Option.map_eq_some_iff.mp hd
          obtain ⟨c1, hc1, hd1⟩ := Option.bind_eq_some_iff.mp he
          obtain ⟨c2, hc2, rfl⟩ := Option.map_eq_some_iff.mp hd1
          exact block pre x rest c1 c2 hc1 hc2 h hpre (ih _ hlt _ _ hc1 rfl)
            (ih _ (Nat.lt_trans (after_length_lt hc1) hlt) _ _ hc2 rfl)
        · obtain rfl : d = ⟨[], x, rest⟩ := by simpa using hd.symm
          simpa using close pre x rest (by simpa using h) hpre
        · rw [closing?_cons_of_ne (by decide) (by decide)] at hd
          obtain ⟨e, he, rfl⟩ := Option.map_eq_some_iff.mp hd
          exact semicolon pre x rest e he h hpre (ih _ hlt _ _ he rfl)

end Marked

end FlatSheet
