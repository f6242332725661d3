/-
The sheet and the JSON document that a run can print.

A run that prints a sheet puts the flat sheets of its texts one below the other as it goes,
and decides at each of them whether a line has to be ended first.  A run that prints JSON
puts rules and reports together.  Both say the same: a flat sheet is empty only if it has
no rules, so a line is ended exactly between rules (`emit_append`), and what has been
printed at any moment is the flat sheet of the rules put together so far.
-/
import FlatSheet.Proofs.Extension
import FlatSheet.Proofs.Texts

namespace FlatSheet

/-! ### Flat sheets one below the other -/

theorem Rule.toString_ne_empty (r : Rule) : r.toString ≠ "" := by
  intro h
  have hbrace : '\x7b' ∈ r.toString.toList := by
    show '\x7b' ∈ (r.selector ++ " \x7b " ++ r.declarationText ++ "; \x7d").toList
    simp
  rw [h] at hbrace
  cases hbrace

/-- Only a sheet that shows no rules is empty. -/
theorem emit_eq_empty_iff (rs : List Rule) : emit rs = "" ↔ rs.filter Rule.isShown = [] := by
  unfold emit
  constructor
  · intro h
    rcases hrs : rs.filter Rule.isShown with _ | ⟨r, shown⟩
    · rfl
    · exfalso
      have hfirst := intercalate_prefix "\n"
        (List.prefix_append [r.toString] (shown.map Rule.toString))
      rw [hrs, List.map_cons] at h
      rw [List.singleton_append, h, String.intercalate_singleton] at hfirst
      exact r.toString_ne_empty (String.toList_eq_nil_iff.mp (List.prefix_nil.mp hfirst))
  · intro h
    rw [h]
    rfl

/-- A flat sheet can be put below another: a line is ended between them if both have rules. -/
theorem emit_append (rs ss : List Rule) :
    emit (rs ++ ss)
      = if emit rs = "" ∨ emit ss = "" then emit rs ++ emit ss
        else emit rs ++ "\n" ++ emit ss := by
  by_cases hrs : rs.filter Rule.isShown = []
  · rw [if_pos (Or.inl ((emit_eq_empty_iff rs).mpr hrs)), (emit_eq_empty_iff rs).mpr hrs,
      String.empty_append]
    unfold emit
    rw [List.filter_append, hrs, List.nil_append]
  · by_cases hss : ss.filter Rule.isShown = []
    · rw [if_pos (Or.inr ((emit_eq_empty_iff ss).mpr hss)), (emit_eq_empty_iff ss).mpr hss,
        String.append_empty]
      unfold emit
      rw [List.filter_append, hss, List.append_nil]
    · rw [if_neg (by rw [emit_eq_empty_iff, emit_eq_empty_iff]; exact not_or.mpr ⟨hrs, hss⟩)]
      unfold emit
      rw [List.filter_append, List.map_append, String.intercalate_append_of_ne_nil]
      · simpa using hrs
      · simpa using hss

theorem Logged.value_foldlM {α β : Type} (f : β → α → Logged β) (b : β) (as : List α) :
    (as.foldlM f b).value = as.foldl (fun b a => (f b a).value) b := by
  induction as generalizing b with
  | nil => rfl
  | cons a as ih =>
      rw [List.foldlM_cons, Logged.value_bind, ih]
      rfl

/-- Texts flattened one by one, put together. -/
def Flattened.merged (texts : List String) : Flattened where
  rules := texts.flatMap fun text => (flatten text).rules
  diagnostics := texts.flatMap fun text => (flatten text).diagnostics

theorem Flattened.rules_merged_append (texts : List String) (text : String) :
    (merged (texts ++ [text])).rules = (merged texts).rules ++ (flatten text).rules := by
  simp [merged]

theorem Flattened.diagnostics_merged_append (texts : List String) (text : String) :
    (merged (texts ++ [text])).diagnostics
      = (merged texts).diagnostics ++ (flatten text).diagnostics := by
  simp [merged]

/-- Texts put together are read to the end if each of them is. -/
theorem Flattened.isComplete_merged (texts : List String) :
    (merged texts).isComplete = texts.all fun text => (flatten text).isComplete := by
  induction texts with
  | nil => rfl
  | cons text texts ih =>
      rw [List.all_cons, ← ih]
      simp [merged, isComplete, List.any_append]

/-- The name that the client gives itself can stand in a header. -/
theorem ClientConfig.validate_standard : validate {} = .ok {} := by decide

/-- The standard settings are in order, so a fetcher takes nothing but a client. -/
theorem Fetcher.make_standard {U : Type} (w : World U) :
    make w true {} = match w.client {} with
      | .error reason => .error (.requestFailed reason)
      | .ok () => .ok (.new true) := by
  unfold make Client.make
  rw [ClientConfig.validate_standard]
  show ((w.client {}).mapError FetchError.requestFailed >>= _) = _
  rcases w.client {} with reason | _
  · rfl
  · rfl

namespace CommandLine

theorem text_append (s : Sink) (css : String) :
    (s.append Sink.defaultKey css).text = s.text ++ css := by
  rw [Sink.text, Sink.get?_append_self]
  rfl

/-- A sheet is put below what has been printed as one flat sheet is put below another. -/
theorem text_appendSheet (s : Sink) (css : String) :
    (appendSheet s css).text
      = if s.text = "" ∨ css = "" then s.text ++ css else s.text ++ "\n" ++ css := by
  unfold appendSheet
  dsimp only
  rw [text_append]
  by_cases h : s.text = "" ∨ css = ""
  · rw [if_pos h, if_neg]
    simpa [or_comm, or_iff_not_imp_left] using h
  · rw [if_neg h, if_pos, text_append]
    simpa [not_or, and_comm] using h

theorem value_addText (o : Options) (c : Collected) (name text : String) :
    (addText o c name text).value
      = if o.json then
          { c with
            flattened := ⟨c.flattened.rules ++ (flatten text).rules,
              c.flattened.diagnostics ++ (flatten text).diagnostics⟩
            complete := c.complete && (flatten text).isComplete }
        else
          { c with
            sink := appendSheet c.sink (process text)
            complete := c.complete && (flatten text).isComplete } := by
  obtain ⟨json, check, reset, sources⟩ := o
  -- The log is told about reports or not, and the result is the same.
  cases check with
  | false =>
      cases json with
      | false => rfl
      | true => rfl
  | true =>
      cases json with
      | false => rfl
      | true => rfl

/-- What has been collected from some texts is what they make up together. -/
structure Collects (o : Options) (texts : List String) (c : Collected) : Prop where
  printed : o.json = false → c.sink.text = emit (Flattened.merged texts).rules
  flattened : o.json = true → c.flattened = Flattened.merged texts
  complete : c.complete = (Flattened.merged texts).isComplete

variable {o : Options} {texts : List String} {c : Collected}

theorem collects_nil (o : Options) : Collects o [] ⟨.empty, ⟨[], []⟩, true⟩ := by
  refine ⟨fun _ => ?_, fun _ => rfl, rfl⟩
  rw [Sink.text, Sink.get?_empty]
  rfl

theorem Collects.addText (h : Collects o texts c) (name text : String) :
    Collects o (texts ++ [text]) (addText o c name text).value := by
  have hcomplete : (c.complete && (flatten text).isComplete)
      = (Flattened.merged (texts ++ [text])).isComplete := by
    rw [h.complete, Flattened.isComplete_merged, Flattened.isComplete_merged]
    simp
  rw [value_addText]
  by_cases hjson : o.json = true
  · rw [if_pos hjson]
    refine ⟨fun hno => ?_, fun _ => ?_, hcomplete⟩
    · rw [hjson] at hno
      cases hno
    · rw [h.flattened hjson, ← Flattened.rules_merged_append,
        ← Flattened.diagnostics_merged_append]
  · rw [if_neg hjson]
    refine ⟨fun hno => ?_, fun hyes => absurd hyes hjson, hcomplete⟩
    rw [text_appendSheet, h.printed hno, Flattened.rules_merged_append, emit_append]
    rfl

theorem Collects.foldl (h : Collects o texts c) (more : List (String × String)) :
    Collects o (texts ++ more.map Prod.snd)
      (more.foldl (fun c t => (CommandLine.addText o c t.1 t.2).value) c) := by
  induction more generalizing texts c with
  | nil => simpa using h
  | cons t more ih =>
      have hrest := ih (h.addText t.1 t.2)
      rwa [List.append_assoc] at hrest

/-- What a run prints is what its texts make up together. -/
theorem value_flattenAll (o : Options) (texts : List (String × String)) :
    (flattenAll o texts).value
      = ⟨if o.json then (Flattened.merged (texts.map Prod.snd)).toJson.pretty 0
          else emit (Flattened.merged (texts.map Prod.snd)).rules,
        (Flattened.merged (texts.map Prod.snd)).isComplete⟩ := by
  have h := (collects_nil o).foldl texts
  rw [List.nil_append] at h
  unfold flattenAll
  rw [Logged.value_bind, Logged.value_foldlM, Logged.value_pure, h.complete]
  by_cases hjson : o.json = true
  · rw [if_pos hjson, if_pos hjson, h.flattened hjson]
  · rw [if_neg hjson, if_neg hjson, h.printed (by simpa using hjson)]

/-! ### What a run makes of its texts -/

section

variable {U : Type} [Addressing U] {w : World U} {input : Input}
  {sources : List (String × String)}

/-- Without a client a run comes to nothing, whatever its sources are. -/
theorem value_run_of_no_client {reason : String} (h : w.client {} = .error reason) (o : Options) :
    (run o w input).value = .error (.fetch (.requestFailed reason)) := by
  unfold run
  rw [Fetcher.make_standard, h]
  rfl

/-- With a client a run reads its sources, up to the first that gives no text, and flattens what it has
read. -/
theorem value_run (hclient : w.client {} = .ok ()) (o : Options) (input : Input) :
    (run o w input).value
      = (textsAfter w input [] o.sources).map fun sources =>
          (flattenAll o (o.texts sources)).value := by
  unfold run
  rw [Fetcher.make_standard, hclient]
  dsimp only
  rw [Logged.value_bind, (knows_start w input).readAll]
  rcases textsAfter w input [] o.sources with e | sources
  · rfl
  · rfl

theorem value_run_of_error {e : RunError} (hclient : w.client {} = .ok ())
    (h : textsAfter w input [] o.sources = .error e) : (run o w input).value = .error e := by
  rw [value_run hclient, h]
  rfl

theorem map_snd_texts (o : Options) (sources : List (String × String)) :
    (o.texts sources).map Prod.snd
      = (if o.reset then [Sink.baseReset] else []) ++ sources.map Prod.snd := by
  unfold Options.texts
  rw [List.map_append]
  cases o.reset with
  | false => rfl
  | true => rfl

/-- What a run prints is what the base reset, if it is asked for, and the texts of its sources make up
together. -/
theorem value_run_of_texts {texts : List String} (hclient : w.client {} = .ok ())
    (hsources : TextsOf w input o.sources sources)
    (htexts : texts = (if o.reset then [Sink.baseReset] else []) ++ sources.map Prod.snd) :
    (run o w input).value
      = .ok ⟨if o.json then (Flattened.merged texts).toJson.pretty 0
          else emit (Flattened.merged texts).rules, (Flattened.merged texts).isComplete⟩ := by
  rw [value_run hclient, textsOf_iff.mp hsources, htexts, ← map_snd_texts]
  exact congrArg Except.ok (value_flattenAll o (o.texts sources))

/-- **Both output modes say the same.**  Of the base reset, if it is asked for, and of the texts of all
sources, a run that prints JSON prints the rules and the reports, each in order.  A run that prints a
sheet prints the flat sheet of the same rules.  Both tell whether all texts were read to their end. -/
theorem output_modes_agree (o : Options) (hclient : w.client {} = .ok ())
    (hsources : TextsOf w input o.sources sources) :
    let texts := (if o.reset then [Sink.baseReset] else []) ++ sources.map Prod.snd
    let rules := texts.flatMap fun text => (flatten text).rules
    let diagnostics := texts.flatMap fun text => (flatten text).diagnostics
    let complete := texts.all fun text => (flatten text).isComplete
    let document := JsonValue.object [("rules", .array (rules.map Rule.toJson)),
      ("diagnostics", .array (diagnostics.map Diagnostic.toJson))]
    (run { o with json := true } w input).value = .ok ⟨document.pretty 0, complete⟩ ∧
      (run { o with json := false } w input).value = .ok ⟨emit rules, complete⟩ := by
  intro texts rules diagnostics complete document
  have hjson : (run { o with json := true } w input).value = _ :=
    value_run_of_texts hclient hsources rfl
  have hsheet : (run { o with json := false } w input).value = _ :=
    value_run_of_texts hclient hsources rfl
  rw [Flattened.isComplete_merged] at hjson hsheet
  exact ⟨hjson, hsheet⟩

end

/-- A run that begins with the base reset, whose first source is empty and whose second one has a brace
too many. -/
theorem output_modes_agree_reset :
    let w : World Url := worldOf "a.css" ".a \x7b x: 1; \x7d \x7d"
    let o : Options := { reset := true, sources := ["-", "a.css"] }
    let body : Rule := ⟨"body", ["margin: 0", "padding: 0"]⟩
    TextsOf w (.ok []) o.sources [("-", ""), ("a.css", ".a \x7b x: 1; \x7d \x7d")] ∧
      (run { o with json := true } w (.ok [])).value
        = .ok ⟨(⟨[body, ⟨".a", ["x: 1"]⟩], [.strayClosingBrace ⟨1, 14, 13⟩]⟩ :
            Flattened).toJson.pretty 0, true⟩ ∧
      (run { o with json := false } w (.ok [])).value
        = .ok ⟨"body \x7b margin: 0; padding: 0; \x7d\n.a \x7b x: 1; \x7d", true⟩ := by
  intro w o body
  have hsources : TextsOf w (.ok []) o.sources
      [("-", ""), ("a.css", ".a \x7b x: 1; \x7d \x7d")] := by
    refine textsOf_iff.mpr ?_
    decide +kernel
  obtain ⟨hjson, hsheet⟩ := output_modes_agree o rfl hsources
  refine ⟨hsources, hjson.trans ?_, hsheet.trans ?_⟩
  · decide +kernel
  · decide +kernel

end CommandLine

end FlatSheet
