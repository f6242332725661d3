/-
What a single event does to a sheet that is being flattened.

A `View` is what there is to know about a sheet in the middle of being flattened: the
marked text ahead, the open blocks, and what has been built.  The log is left out, and so
is the way the text ahead is stored.  `Leads` and `Ends` say what the run makes of a
view, whatever state shows it, and each event is one such fact.  What they add up to is
the subject of `Proofs/Flatten.lean`.
-/
import FlatSheet.Proofs.Event

namespace FlatSheet

namespace Flattening

/-- A sheet in the middle of being flattened, up to its log. -/
structure View where
  ahead : List (Char × Location)
  frames : List Frame
  checkpoint : Option Checkpoint
  rules : List Rule
  diagnostics : List Diagnostic

/-- The state is one of those that the view describes. -/
structure Shows (s : Flattening) (v : View) : Prop where
  ahead : s.events.Ahead v.ahead
  frames : s.frames = v.frames
  checkpoint : s.checkpoint = v.checkpoint
  rules : s.rules.toList = v.rules
  diagnostics : s.diagnostics.toList = v.diagnostics

/-- The run comes from the one view to the other. -/
def Leads (v w : View) : Prop := ∀ s, Shows s v → ∃ t, Shows t w ∧ s.run = t.run

/-- The run ends with the given result. -/
def Ends (v : View) (f : Flattened) : Prop := ∀ s, Shows s v → s.run.result = f

theorem Leads.refl (v : View) : Leads v v := fun s h => ⟨s, h, rfl⟩

theorem Leads.trans {u v w : View} (h : Leads u v) (h' : Leads v w) : Leads u w := by
  intro s hs
  obtain ⟨t, ht, hst⟩ := h s hs
  obtain ⟨r, hr, htr⟩ := h' t ht
  exact ⟨r, hr, hst.trans htr⟩

theorem Leads.ends {v w : View} {f : Flattened} (h : Leads v w) (h' : Ends w f) : Ends v f := by
  intro s hs
  obtain ⟨t, ht, hst⟩ := h s hs
  rw [hst]
  exact h' t ht

/-! ### Runs, one step at a time -/

theorem run_of_more {s t : Flattening} (h : s.step = .more t) : s.run = t.run := by
  rw [run]
  split <;> rename_i hs <;> rw [h] at hs
  · obtain rfl := by simpa using hs
    rfl
  · simp at hs

theorem run_of_finished {s t : Flattening} (h : s.step = .finished t) : s.run = t := by
  rw [run]
  split <;> rename_i hs <;> rw [h] at hs
  · simp at hs
  · obtain rfl := by simpa using hs
    rfl

theorem run_congr {s t : Flattening} (h : s.step = t.step) : s.run = t.run := by
  rcases ht : t.step with r | r
  · rw [run_of_more ht, run_of_more (h.trans ht)]
  · rw [run_of_finished ht, run_of_finished (h.trans ht)]

section

variable {s : Flattening} {e : Events}

theorem step_of_opened {selector : String} {l : Location}
    (h : s.events.next s.mode = (some (.opened selector l), e)) :
    s.step = { s with events := e }.openBlock selector l := by
  unfold step
  rw [h]

theorem step_of_text {text : String} {l : Location}
    (h : s.events.next s.mode = (some (.text text l), e)) :
    s.step = .more ({ s with events := e }.addText text l) := by
  unfold step
  rw [h]

theorem step_of_closed {l : Location} (h : s.events.next s.mode = (some (.closed l), e)) :
    s.step = .more ({ s with events := e }.closeBlock l) := by
  unfold step
  rw [h]

theorem step_of_end {c : Checkpoint} (h : s.events.next s.mode = (none, e))
    (hc : s.checkpoint = some c) :
    s.step = .finished ({ s with events := e }.halt c.location) := by
  unfold step
  rw [h]
  simp only [hc]

theorem step_of_end_outside (h : s.events.next s.mode = (none, e)) (hc : s.checkpoint = none) :
    s.step = .finished { s with events := e } := by
  unfold step
  rw [h]
  simp only [hc]

end

/-! ### What reports leave alone -/

section

variable (s : Flattening) (d : Diagnostic)

@[simp] theorem frames_report : (s.report d).frames = s.frames := by
  unfold report announce; split <;> rfl

@[simp] theorem checkpoint_report : (s.report d).checkpoint = s.checkpoint := by
  unfold report announce; split <;> rfl

@[simp] theorem rules_report : (s.report d).rules = s.rules := by
  unfold report announce; split <;> rfl

@[simp] theorem diagnostics_report :
    (s.report d).diagnostics = s.diagnostics.push d := rfl

variable (slot : Nat)

@[simp] theorem rules_announceRule : (s.announceRule slot).rules = s.rules := by
  unfold announceRule; split <;> (try split) <;> rfl

@[simp] theorem diagnostics_announceRule :
    (s.announceRule slot).diagnostics = s.diagnostics := by
  unfold announceRule; split <;> (try split) <;> rfl

end

theorem shows_report {s : Flattening} {v : View} (h : Shows s v) (d : Diagnostic) :
    Shows (s.report d) { v with diagnostics := v.diagnostics ++ [d] } := by
  refine ⟨?_, ?_, ?_, ?_, ?_⟩
  · rw [events_report]
    exact h.ahead
  · rw [frames_report, h.frames]
  · rw [checkpoint_report, h.checkpoint]
  · rw [rules_report, h.rules]
  · rw [diagnostics_report, Array.toList_push, h.diagnostics]

/-- What is left when the run stops at a block that never closes. -/
def View.halted (v : View) (l : Location) : Flattened :=
  match v.checkpoint with
  | some c =>
    ⟨(v.rules.take c.rules).filter Rule.isShown,
      v.diagnostics.take c.diagnostics ++ [.unbalancedBraces c.location]⟩
  | none => ⟨v.rules.filter Rule.isShown, v.diagnostics ++ [.unbalancedBraces l]⟩

theorem result_stop (s : Flattening) (l : Location) :
    (s.stop l).result
      = ⟨s.rules.toList.filter Rule.isShown, s.diagnostics.toList ++ [.unbalancedBraces l]⟩ := by
  unfold stop result
  simp [say]

theorem result_halt {s : Flattening} {v : View} (hc : s.checkpoint = v.checkpoint)
    (hr : s.rules.toList = v.rules) (hd : s.diagnostics.toList = v.diagnostics) (l : Location) :
    (s.halt l).result = v.halted l := by
  unfold halt View.halted
  rw [hc]
  rcases v.checkpoint with _ | c
  · show (s.stop l).result = _
    rw [result_stop, hr, hd]
  · show ((s.rewind c).stop c.location).result = _
    rw [result_stop, ← hr, ← hd]
    simp [rewind]

/-! ### One event inside a block -/

/-- A text becomes a declaration of the innermost block, unless it is blank. -/
def View.declare (text : List Char) (v : View) : View :=
  if Text.trim text = [] then v
  else match v.frames with
    | [] => v
    | f :: outer =>
      let selector := resolveInnermost v.frames
      { v with
        frames := { f with resolved := some selector } :: outer
        rules := v.rules.modify f.slot (addDeclaration selector (trimmed text)) }

section

variable (text : List Char) (v : View)

@[simp] theorem ahead_declare : (v.declare text).ahead = v.ahead := by
  unfold View.declare; split <;> (try split) <;> rfl

@[simp] theorem checkpoint_declare : (v.declare text).checkpoint = v.checkpoint := by
  unfold View.declare; split <;> (try split) <;> rfl

@[simp] theorem length_frames_declare : (v.declare text).frames.length = v.frames.length := by
  obtain ⟨_, frames, _, _, _⟩ := v
  unfold View.declare
  split
  · rfl
  · cases frames <;> rfl

end

/-- The innermost block closes. -/
def View.close (v : View) : View :=
  { v with
    frames := v.frames.tail
    checkpoint := if v.frames.tail.isEmpty then none else v.checkpoint }

section

variable {pre rest : List (Char × Location)} {x : Location} {f : Frame} {outer : List Frame}
  {checkpoint : Option Checkpoint} {rules : List Rule} {diagnostics : List Diagnostic}

theorem mode_of_frames {s : Flattening} (h : s.frames = f :: outer) : s.mode = .nested := by
  unfold mode
  rw [h]
  rfl

theorem mode_of_no_frames {s : Flattening} (h : s.frames = []) : s.mode = .topLevel := by
  unfold mode
  rw [h]
  rfl

/-- Declaring a text does not look at the events. -/
theorem addText_with_events (s : Flattening) (e : Events) (text : String) (l : Location) :
    ({ s with events := e } : Flattening).addText text l
      = { s.addText text l with events := e } := by
  obtain ⟨_, frames, _, _, _, _⟩ := s
  cases frames <;> rfl

theorem shows_addText {s : Flattening} {text : List Char} {l : Location} {v : View}
    (h : Shows s v) (hf : v.frames = f :: outer) (ht : Text.trim text ≠ []) :
    Shows (s.addText (trimmed text) l) (v.declare text) := by
  have hs : s.frames = f :: outer := h.frames.trans hf
  unfold addText View.declare
  rw [if_neg ht, hs, hf]
  refine ⟨h.ahead, rfl, h.checkpoint, ?_, h.diagnostics⟩
  rw [Array.toList_modify, h.rules]

theorem shows_closeBlock {s : Flattening} {l : Location} {v : View} (h : Shows s v)
    (hf : v.frames = f :: outer) : Shows (s.closeBlock l) v.close := by
  have hs : s.frames = f :: outer := h.frames.trans hf
  unfold closeBlock View.close
  rw [hs, hf]
  refine ⟨?_, rfl, ?_, ?_, ?_⟩
  · show (s.announceRule f.slot).events.Ahead v.ahead
    rw [events_announceRule]
    exact h.ahead
  · show (if outer.isEmpty then none else s.checkpoint) = _
    rw [h.checkpoint]
    rfl
  · show (s.announceRule f.slot).rules.toList = _
    rw [rules_announceRule, h.rules]
  · show (s.announceRule f.slot).diagnostics.toList = _
    rw [diagnostics_announceRule, h.diagnostics]

theorem leads_semicolon (hpre : ∀ m ∈ pre, ScanMode.nested.isBoundary m.1 = false) :
    Leads ⟨pre ++ (';', x) :: rest, f :: outer, checkpoint, rules, diagnostics⟩
      (View.declare (pre.map Prod.fst) ⟨rest, f :: outer, checkpoint, rules, diagnostics⟩) := by
  intro s hs
  have hmode := mode_of_frames hs.frames
  by_cases ht : Text.trim (pre.map Prod.fst) = []
  · obtain ⟨e, hnext, he⟩ := Events.next_of_blank_semicolon hs.ahead hpre ht
    refine ⟨{ s with events := e }, ?_, run_congr ?_⟩
    · rw [View.declare, if_pos ht]
      exact ⟨he, hs.frames, hs.checkpoint, hs.rules, hs.diagnostics⟩
    · unfold step
      rw [show ({ s with events := e } : Flattening).mode = s.mode from rfl, hmode, hnext]
  · obtain ⟨l, e, hnext, he⟩ := Events.next_of_text_semicolon hs.ahead hpre ht
    rw [← hmode] at hnext
    refine ⟨_, ?_, run_of_more (step_of_text hnext)⟩
    exact shows_addText ⟨he, hs.frames, hs.checkpoint, hs.rules, hs.diagnostics⟩ rfl ht

theorem leads_close (hpre : ∀ m ∈ pre, ScanMode.nested.isBoundary m.1 = false) :
    Leads ⟨pre ++ ('}', x) :: rest, f :: outer, checkpoint, rules, diagnostics⟩
      (View.declare (pre.map Prod.fst)
        ⟨rest, f :: outer, checkpoint, rules, diagnostics⟩).close := by
  intro s hs
  have hmode := mode_of_frames hs.frames
  by_cases ht : Text.trim (pre.map Prod.fst) = []
  · obtain ⟨e, hnext, he⟩ := Events.next_of_blank_close hs.ahead hpre ht
    rw [← hmode] at hnext
    refine ⟨_, ?_, run_of_more (step_of_closed hnext)⟩
    rw [View.declare, if_pos ht]
    exact shows_closeBlock ⟨he, hs.frames, hs.checkpoint, hs.rules, hs.diagnostics⟩ rfl
  · -- The text is one step and the closing that waited behind it another.
    obtain ⟨l, c, hnext, he⟩ := Events.next_of_text_close hs.ahead hpre ht
    rw [← hmode] at hnext
    have hdeclared := shows_addText (l := l)
      (show Shows { s with events := ⟨c, none⟩ }
        ⟨rest, f :: outer, checkpoint, rules, diagnostics⟩ from
        ⟨he, hs.frames, hs.checkpoint, hs.rules, hs.diagnostics⟩) rfl ht
    have hframes : (View.declare (pre.map Prod.fst)
        ⟨rest, f :: outer, checkpoint, rules, diagnostics⟩).frames
          = { f with resolved := some (resolveInnermost (f :: outer)) } :: outer := by
      rw [View.declare, if_neg ht]
    refine ⟨_, shows_closeBlock (l := x) hdeclared hframes, ?_⟩
    rw [run_of_more (step_of_text hnext)]
    refine run_of_more ?_
    rw [addText_with_events s ⟨c, some (.closed x)⟩, addText_with_events s ⟨c, none⟩]
    exact step_of_closed rfl

end

/-! ### A block opens -/

section

variable {s : Flattening} {v : View} {f : Frame} {outer : List Frame} {selector : String}
  {l : Location}

theorem openBlock_inside (hs : s.frames = f :: outer) (h : selector ≠ "") :
    s.openBlock selector l = .more (s.pushFrame selector none) := by
  unfold openBlock
  rw [hs]
  rcases hsel : selector.toList with _ | ⟨c, cs⟩
  · exact absurd (String.toList_eq_nil_iff.mp hsel) h
  · rfl

theorem openBlock_inside_empty (hs : s.frames = f :: outer) :
    s.openBlock "" l = s.discard (.degenerateNestedSelector l) := by
  unfold openBlock
  rw [hs]
  rfl

theorem openBlock_outside_empty (hs : s.frames = []) :
    s.openBlock "" l = s.discard (.emptySelector l) := by
  unfold openBlock
  rw [hs]
  rfl

theorem openBlock_atRule {afterSign : List Char} (hs : s.frames = [])
    (h : selector.toList = '@' :: afterSign) :
    s.openBlock selector l = s.discard (.atRuleDiscarded (atRuleName afterSign) l) := by
  unfold openBlock
  rw [hs, h]
  rfl

theorem openBlock_outside (hs : s.frames = []) (h : selector ≠ "")
    (hat : ∀ afterSign, selector.toList ≠ '@' :: afterSign) :
    s.openBlock selector l = .more (({ s with
      checkpoint := some ⟨l, s.rules.size, s.diagnostics.size⟩ } : Flattening).pushFrame
        selector (some selector)) := by
  unfold openBlock
  rw [hs]
  split
  · rename_i hsel
    exact absurd (String.toList_eq_nil_iff.mp hsel) h
  · rename_i hsel
    exact absurd hsel (hat _)
  · rfl
  · contradiction
  · contradiction

theorem shows_pushFrame (h : Shows s v) (resolved : Option String) :
    Shows (s.pushFrame selector resolved)
      { v with
        frames := ⟨selector, resolved, v.rules.length⟩ :: v.frames
        rules := v.rules ++ [⟨"", []⟩] } := by
  refine ⟨h.ahead, ?_, h.checkpoint, ?_, h.diagnostics⟩
  · show (⟨selector, resolved, s.rules.size⟩ : Frame) :: s.frames = _
    rw [h.frames, ← h.rules]
    rfl
  · show (s.rules.push ⟨"", []⟩).toList = _
    rw [Array.toList_push, h.rules]

/-- A block that closes is skipped and reported. -/
theorem discard_of_closing {c : Marked.Closing Location} (h : Shows s v)
    (hc : Marked.closing? 0 v.ahead = some c) (d : Diagnostic) :
    ∃ t, s.discard d = .more t ∧
      Shows t { v with ahead := c.after, diagnostics := v.diagnostics ++ [d] } := by
  obtain ⟨e, hskip, he⟩ := Events.skipBlock_of_closing h.ahead hc
  refine ⟨({ s with events := e } : Flattening).report d, ?_, ?_⟩
  · unfold discard
    rw [hskip]
    rfl
  · have hshows : Shows { s with events := e } { v with ahead := c.after } :=
      ⟨he, h.frames, h.checkpoint, h.rules, h.diagnostics⟩
    exact shows_report hshows d

/-- A block that never closes ends the run, also when it was to be skipped. -/
theorem discard_of_unclosed (h : Shows s v) (hc : Marked.closing? 0 v.ahead = none)
    (d : Diagnostic) : ∃ t, s.discard d = .finished t ∧ t.result = v.halted d.location := by
  have hskip := Events.skipBlock_of_none h.ahead hc
  refine ⟨({ s with events := s.events.skipBlock.2 } : Flattening).halt d.location, ?_, ?_⟩
  · unfold discard
    simp only [hskip]
    rfl
  · exact result_halt (s := { s with events := s.events.skipBlock.2 }) h.checkpoint h.rules
      h.diagnostics d.location

end

section

variable {pre rest : List (Char × Location)} {x : Location} {f : Frame} {outer : List Frame}
  {checkpoint : Option Checkpoint} {rules : List Rule} {diagnostics : List Diagnostic}
  {c : Marked.Closing Location}

/-- A block with a selector opens inside another. -/
theorem leads_open (hpre : ∀ m ∈ pre, ScanMode.nested.isBoundary m.1 = false)
    (ht : trimmed (pre.map Prod.fst) ≠ "") :
    Leads ⟨pre ++ ('{', x) :: rest, f :: outer, checkpoint, rules, diagnostics⟩
      ⟨rest, ⟨trimmed (pre.map Prod.fst), none, rules.length⟩ :: f :: outer, checkpoint,
        rules ++ [⟨"", []⟩], diagnostics⟩ := by
  intro s hs
  obtain ⟨e, hnext, he⟩ := Events.next_of_open hs.ahead hpre
  rw [← mode_of_frames hs.frames] at hnext
  have hstep := (step_of_opened hnext).trans (openBlock_inside hs.frames ht)
  have hshows : Shows { s with events := e } ⟨rest, f :: outer, checkpoint, rules, diagnostics⟩ :=
    ⟨he, hs.frames, hs.checkpoint, hs.rules, hs.diagnostics⟩
  exact ⟨_, shows_pushFrame hshows none, run_of_more hstep⟩

variable {frames : List Frame} {mode : ScanMode} {d : Diagnostic}

/-- Blocks that are left out are skipped if they close. -/
theorem leads_discard
    (hopen : ∀ s : Flattening, s.frames = frames →
      s.mode = mode ∧ s.openBlock (trimmed (pre.map Prod.fst)) x = s.discard d)
    (hpre : ∀ m ∈ pre, mode.isBoundary m.1 = false) (hc : Marked.closing? 0 rest = some c) :
    Leads ⟨pre ++ ('{', x) :: rest, frames, checkpoint, rules, diagnostics⟩
      ⟨c.after, frames, checkpoint, rules, diagnostics ++ [d]⟩ := by
  intro s hs
  obtain ⟨e, hnext, he⟩ := Events.next_of_open hs.ahead hpre
  rw [← (hopen s hs.frames).1] at hnext
  have hshows : Shows { s with events := e } ⟨rest, frames, checkpoint, rules, diagnostics⟩ :=
    ⟨he, hs.frames, hs.checkpoint, hs.rules, hs.diagnostics⟩
  have hstep := (step_of_opened hnext).trans (hopen { s with events := e } hs.frames).2
  obtain ⟨t, hdiscard, ht⟩ := discard_of_closing hshows hc d
  exact ⟨t, ht, run_of_more (hstep.trans hdiscard)⟩

/-- If they do not, the run ends there. -/
theorem ends_discard
    (hopen : ∀ s : Flattening, s.frames = frames →
      s.mode = mode ∧ s.openBlock (trimmed (pre.map Prod.fst)) x = s.discard d)
    (hpre : ∀ m ∈ pre, mode.isBoundary m.1 = false) (hc : Marked.closing? 0 rest = none) :
    Ends ⟨pre ++ ('{', x) :: rest, frames, checkpoint, rules, diagnostics⟩
      (View.halted ⟨rest, frames, checkpoint, rules, diagnostics⟩ d.location) := by
  intro s hs
  obtain ⟨e, hnext, he⟩ := Events.next_of_open hs.ahead hpre
  rw [← (hopen s hs.frames).1] at hnext
  have hshows : Shows { s with events := e } ⟨rest, frames, checkpoint, rules, diagnostics⟩ :=
    ⟨he, hs.frames, hs.checkpoint, hs.rules, hs.diagnostics⟩
  have hstep := (step_of_opened hnext).trans (hopen { s with events := e } hs.frames).2
  obtain ⟨t, hdiscard, ht⟩ := discard_of_unclosed hshows hc d
  rw [run_of_finished (hstep.trans hdiscard)]
  exact ht

end

/-! ### Outside all blocks -/

section

variable {pre rest ms : List (Char × Location)} {x : Location}
  {rules : List Rule} {diagnostics : List Diagnostic}

/-- A brace that closes nothing is reported, and the text in front of it is dropped. -/
theorem leads_stray (hpre : ∀ m ∈ pre, ScanMode.topLevel.isBoundary m.1 = false) :
    Leads ⟨pre ++ ('}', x) :: rest, [], none, rules, diagnostics⟩
      ⟨rest, [], none, rules, diagnostics ++ [.strayClosingBrace x]⟩ := by
  intro s hs
  obtain ⟨e, hnext, he⟩ := Events.next_of_stray hs.ahead hpre
  rw [← mode_of_no_frames hs.frames] at hnext
  have hshows : Shows { s with events := e } ⟨rest, [], none, rules, diagnostics⟩ :=
    ⟨he, hs.frames, hs.checkpoint, hs.rules, hs.diagnostics⟩
  refine ⟨_, shows_report hshows (.strayClosingBrace x), run_of_more ?_⟩
  rw [step_of_closed hnext]
  unfold closeBlock
  rw [hs.frames]

/-- An outermost block sets the checkpoint. -/
theorem leads_open_outside (hpre : ∀ m ∈ pre, ScanMode.topLevel.isBoundary m.1 = false)
    (ht : trimmed (pre.map Prod.fst) ≠ "")
    (hat : ∀ afterSign, (trimmed (pre.map Prod.fst)).toList ≠ '@' :: afterSign) :
    Leads ⟨pre ++ ('{', x) :: rest, [], none, rules, diagnostics⟩
      ⟨rest, [⟨trimmed (pre.map Prod.fst), some (trimmed (pre.map Prod.fst)), rules.length⟩],
        some ⟨x, rules.length, diagnostics.length⟩, rules ++ [⟨"", []⟩], diagnostics⟩ := by
  intro s hs
  obtain ⟨e, hnext, he⟩ := Events.next_of_open hs.ahead hpre
  rw [← mode_of_no_frames hs.frames] at hnext
  have hshows : Shows
      { s with events := e, checkpoint := some ⟨x, s.rules.size, s.diagnostics.size⟩ }
      ⟨rest, [], some ⟨x, rules.length, diagnostics.length⟩, rules, diagnostics⟩ := by
    have hrules : s.rules.size = rules.length := congrArg List.length hs.rules
    have hdiagnostics : s.diagnostics.size = diagnostics.length :=
      congrArg List.length hs.diagnostics
    refine ⟨he, hs.frames, ?_, hs.rules, hs.diagnostics⟩
    rw [hrules, hdiagnostics]
  refine ⟨_, shows_pushFrame hshows (some (trimmed (pre.map Prod.fst))), run_of_more ?_⟩
  rw [step_of_opened hnext]
  exact openBlock_outside hs.frames ht hat

end

/-! ### The sheet ends -/

section

variable {ms : List (Char × Location)} {f : Frame} {outer : List Frame} {c : Checkpoint}
  {rules : List Rule} {diagnostics : List Diagnostic}

/-- A text outside all blocks leaves its trace in the log only. -/
theorem addText_outside {s : Flattening} (h : s.frames = []) (text : String) (l : Location) :
    ∃ records, s.addText text l = { s with records } := by
  obtain ⟨_, frames, _, _, _, _⟩ := s
  obtain rfl : frames = [] := h
  exact ⟨_, rfl⟩

/-- Outside all blocks the end of the sheet changes nothing. -/
theorem ends_outside (hms : ∀ m ∈ ms, ScanMode.topLevel.isBoundary m.1 = false) :
    Ends ⟨ms, [], none, rules, diagnostics⟩ ⟨rules.filter Rule.isShown, diagnostics⟩ := by
  intro s hs
  have hresult : ∀ t : Flattening, t.rules = s.rules → t.diagnostics = s.diagnostics →
      t.result = ⟨rules.filter Rule.isShown, diagnostics⟩ := by
    intro t hr hd
    rw [result, hr, hd, Array.toList_filter, hs.rules, hs.diagnostics]
  obtain ⟨l, e, hnext, hqueued, hrest⟩ := Events.next_of_forall hs.ahead hms
  rw [← mode_of_no_frames hs.frames] at hnext
  by_cases ht : Text.trim (ms.map Prod.fst) = []
  · rw [ht] at hnext
    rw [run_of_finished (step_of_end_outside hnext hs.checkpoint)]
    exact hresult _ rfl rfl
  · rw [Events.textEvent?_of_ne_nil ht] at hnext
    obtain ⟨records, hrecords⟩ := addText_outside hs.frames (trimmed (ms.map Prod.fst)) l
    have htext : s.step = .more { s with records, events := e } := by
      refine (step_of_text hnext).trans (congrArg Progress.more ?_)
      rw [addText_with_events]
      exact congrArg (fun t : Flattening => { t with events := e }) hrecords
    have hend := step_of_end_outside (s := { s with records, events := e })
      (Events.next_of_rest_eq_nil hqueued hrest _) hs.checkpoint
    rw [run_of_more htext, run_of_finished hend]
    exact hresult _ rfl rfl

/-- Inside a block the end of the sheet is a halt, after a last declaration. -/
theorem ends_inside (hms : ∀ m ∈ ms, ScanMode.nested.isBoundary m.1 = false) :
    Ends ⟨ms, f :: outer, some c, rules, diagnostics⟩
      (View.halted (View.declare (ms.map Prod.fst)
        ⟨ms, f :: outer, some c, rules, diagnostics⟩) c.location) := by
  intro s hs
  obtain ⟨l, e, hnext, hqueued, hrest⟩ := Events.next_of_forall hs.ahead hms
  rw [← mode_of_frames hs.frames] at hnext
  by_cases ht : Text.trim (ms.map Prod.fst) = []
  · rw [ht] at hnext
    rw [run_of_finished (step_of_end hnext hs.checkpoint), View.declare, if_pos ht]
    exact result_halt (s := { s with events := e }) hs.checkpoint hs.rules hs.diagnostics _
  · rw [Events.textEvent?_of_ne_nil ht] at hnext
    have hdeclared := shows_addText (l := l) hs rfl ht
    have hcheckpoint : (s.addText (trimmed (ms.map Prod.fst)) l).checkpoint = some c := by
      rw [hdeclared.checkpoint, checkpoint_declare]
    have htext : s.step = .more { s.addText (trimmed (ms.map Prod.fst)) l with events := e } :=
      (step_of_text hnext).trans (congrArg Progress.more (addText_with_events s e _ l))
    have hend := step_of_end (s := { s.addText (trimmed (ms.map Prod.fst)) l with events := e })
      (Events.next_of_rest_eq_nil hqueued hrest _) hcheckpoint
    rw [run_of_more htext, run_of_finished hend]
    exact result_halt (s := { s.addText (trimmed (ms.map Prod.fst)) l with events := e })
      hdeclared.checkpoint hdeclared.rules hdeclared.diagnostics _

end

end Flattening

end FlatSheet
