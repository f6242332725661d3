/-
What a run of calls on a fetcher leaves behind.

A fetcher and a sink are used for some time, while the files change under them in any
way.  What is remembered then is a plain map: under each name stands the text of the
first load of that name that succeeded since everything was last forgotten, and nothing
else is remembered (`Scene.remembers_run`).  What the next step does follows from that map
and the files alone (`Scene.obeys`), so the fetcher has no other state.

All sources are files here.  Nothing is assumed about the place where they are kept: it
may show anything at any moment, whatever was written to it before.
-/
import FlatSheet.Fetch.FileTree
import FlatSheet.Proofs.Remembering

namespace FlatSheet

namespace Fetcher

variable {U : Type} [Addressing U] {f : Fetcher} {w : World U} {s : Source U} {text : String}

/-! ### What one load answers and leaves -/

/-- What can be read from a file: the text that its bytes are, or else why there is none. -/
inductive Reads (w : World U) (path : FilePath) : Except FetchError String → Prop where
  | text (text : String) (h : w.read path = .ok (Text.Utf8.encode text)) : Reads w path (.ok text)
  | unreadable (reason : String) (h : w.read path = .error reason) :
    Reads w path (.error (.io path reason))
  | noText (bytes : List UInt8) (h : w.read path = .ok bytes)
    (hno : ∀ text, bytes ≠ Text.Utf8.encode text) : Reads w path (.error (.encoding path.display))

theorem reads_loadUncached (w : World U) (path : FilePath) :
    Reads w path (loadUncached w (.file path)).value := by
  unfold loadUncached
  dsimp only
  rw [Logged.value_bind]
  rcases hr : w.read path with reason | bytes
  · exact .unreadable reason hr
  · dsimp only
    rcases hd : Text.Utf8.decode? bytes with _ | text
    · refine .noText bytes hr ?_
      rintro text rfl
      rw [Text.Utf8.decode?_encode] at hd
      cases hd
    · rw [← Text.Utf8.encode_of_decode? hd] at hr
      exact .text text hr

/-- A load that fails remembers nothing. -/
theorem load_snd_of_error {e : FetchError} (h : (f.load w s).value.1 = .error e) :
    (f.load w s).value.2 = f := by
  rcases hc : f.cache[s.id]? with _ | text
  · rw [load_of_not_cached hc] at h ⊢
    rcases hu : (loadUncached w s).value with e' | text
    · rfl
    · rw [hu] at h
      cases h
  · rw [load_of_cached hc]

/-- A fetcher that is told to remember nothing stays as it is. -/
theorem load_snd_of_not_remembers (hf : f.remembers = false) : (f.load w s).value.2 = f := by
  rcases hc : f.cache[s.id]? with _ | text
  · rw [load_of_not_cached hc]
    rcases (loadUncached w s).value with e | text
    · rfl
    · dsimp only
      rw [hf]
      rfl
  · rw [load_of_cached hc]

/-- A load that hands its text to a sink answers as the load does. -/
theorem loadIntoKey_answer (f : Fetcher) (w : World U) (s : Source U) (key : String) (sink : Sink) :
    (f.loadIntoKey w s key sink).value.1 = (f.load w s).value.1.map fun _ => () := by
  unfold loadIntoKey
  rw [Logged.value_bind]
  rcases (f.load w s).value with ⟨e | text, f'⟩
  · rfl
  · rfl

/-- A text that was loaded is flattened and written to the one buffer. -/
theorem loadIntoKey_sink_of_ok (h : (f.load w s).value.1 = .ok text) (key : String) (sink : Sink) :
    (f.loadIntoKey w s key sink).value.2.2 = sink.append key (process text) := by
  unfold loadIntoKey
  rw [Logged.value_bind]
  rcases hl : (f.load w s).value with ⟨answer, f'⟩
  rw [hl] at h
  obtain rfl : answer = .ok text := h
  rfl

theorem loadIntoKey_sink_of_error {e : FetchError} (h : (f.load w s).value.1 = .error e)
    (key : String) (sink : Sink) : (f.loadIntoKey w s key sink).value.2.2 = sink := by
  unfold loadIntoKey
  rw [Logged.value_bind]
  rcases hl : (f.load w s).value with ⟨answer, f'⟩
  rw [hl] at h
  obtain rfl : answer = .error e := h
  rfl

/-! ### Steps -/

/-- A place where files are kept: what it shows to a reader, and how files are written to it and
removed from it. -/
structure Disk (U σ : Type) where
  world : σ → World U
  write : σ → FilePath → List UInt8 → σ
  remove : σ → FilePath → σ

/-- Files below a working directory. -/
def Disk.trees : Disk Url FileTree := ⟨FileTree.world, FileTree.write, FileTree.remove⟩

/-- One thing that happens: the files change, or a call is made. -/
inductive Step (σ : Type) where
  | write (path : FilePath) (content : List UInt8)
  | remove (path : FilePath)
  /-- Anything at all happens to the files. -/
  | change (files : σ)
  | load (path : FilePath)
  | loadUncached (path : FilePath)
  | loadInto (path : FilePath)
  | loadIntoKey (path : FilePath) (key : String)
  | isCached (path : FilePath)
  | clearCache

/-- What a step answers, if it does not fail. -/
inductive Reply where
  | done
  | text (text : String)
  | cached (answer : Bool)

namespace Step

variable {σ : Type}

/-- The files after a step. -/
def filesAfter (disk : Disk U σ) (files : σ) : Step σ → σ
  | write path content => disk.write files path content
  | remove path => disk.remove files path
  | change files => files
  | load _ | loadUncached _ | loadInto _ | loadIntoKey _ _ | isCached _ | clearCache => files

/-- The call that a step makes, in a given world. -/
def call? (w : World U) : Step σ → Option (Call U)
  | write _ _ | remove _ | change _ => none
  | load path => some (.load w (.file path))
  | loadUncached path => some (.loadUncached w (.file path))
  | loadInto path => some (.loadInto w (.file path))
  | loadIntoKey path key => some (.loadIntoKey w (.file path) key)
  | isCached path => some (.isCached (.file path))
  | clearCache => some .clearCache

/-- The file that a step loads by way of the memory. -/
def loaded? : Step σ → Option FilePath
  | load path | loadInto path | loadIntoKey path _ => some path
  | write _ _ | remove _ | change _ | loadUncached _ | isCached _ | clearCache => none

/-- The buffer that a step writes to. -/
def buffer? : Step σ → Option String
  | loadInto _ => some Sink.defaultKey
  | loadIntoKey _ key => some key
  | write _ _ | remove _ | change _ | load _ | loadUncached _ | isCached _ | clearCache => none

/-- The step forgets everything. -/
def forgets : Step σ → Bool
  | clearCache => true
  | _ => false

/-- Three kinds of step load a file by way of the memory. -/
theorem cases_of_loaded? {step : Step σ} {path : FilePath} (h : step.loaded? = some path) :
    step = load path ∨ step = loadInto path ∨ ∃ key, step = loadIntoKey path key := by
  cases step with
  | load p => exact Or.inl (congrArg load (Option.some.inj h))
  | loadInto p => exact Or.inr (Or.inl (congrArg loadInto (Option.some.inj h)))
  | loadIntoKey p key =>
      exact Or.inr (Or.inr ⟨key, congrArg (loadIntoKey · key) (Option.some.inj h)⟩)
  | _ => cases h

end Step

/-- Files, a fetcher and a sink at a moment. -/
structure Scene (σ : Type) where
  files : σ
  session : Session

namespace Scene

variable {σ : Type} (disk : Disk U σ)

/-- The beginning: nothing is remembered yet. -/
def start (remembers : Bool) (files : σ) (sink : Sink) : Scene σ := ⟨files, .new remembers, sink⟩

/-- What is remembered under a name. -/
def memory (s : Scene σ) (name : String) : Option String := s.session.fetcher.cache[name]?

/-- What a load of a file answers. -/
def load (s : Scene σ) (path : FilePath) : Except FetchError String :=
  (s.session.fetcher.load (disk.world s.files) (.file path)).value.1

/-- What a load of a file that does not look at the memory answers. -/
def loadUncached (s : Scene σ) (path : FilePath) : Except FetchError String :=
  (Fetcher.loadUncached (disk.world s.files) (.file path)).value

/-- What a step answers. -/
def reply (s : Scene σ) : Step σ → Except FetchError Reply
  | .load path => (s.load disk path).map .text
  | .loadUncached path => (s.loadUncached disk path).map .text
  | .loadInto path =>
    (s.session.fetcher.loadInto (disk.world s.files) (.file path) s.session.sink).value.1.map
      fun _ => .done
  | .loadIntoKey path key =>
    (s.session.fetcher.loadIntoKey (disk.world s.files) (.file path) key
      s.session.sink).value.1.map fun _ => .done
  | .isCached path => .ok (.cached (s.session.fetcher.isCached (.file path : Source U)))
  | .write _ _ | .remove _ | .change _ | .clearCache => .ok .done

/-- The scene after a step. -/
def after (s : Scene σ) (step : Step σ) : Scene σ where
  files := step.filesAfter disk s.files
  session := ((step.call? (disk.world s.files)).map s.session.after).getD s.session

/-- The scene after some steps. -/
def run (s : Scene σ) (steps : List (Step σ)) : Scene σ := steps.foldl (after disk) s

/-- The name and the text of a load that succeeds, also of one that hands its text to a sink. -/
def success? (s : Scene σ) (step : Step σ) : Option (String × String) :=
  match step.loaded?, s.reply disk step with
  | some path, .ok _ =>
    (s.load disk path).toOption.map fun text => ((Source.file path : Source U).id, text)
  | _, _ => none

/-- The loads that have succeeded since everything was last forgotten, the first one first, when some
had succeeded before. -/
def successes (s : Scene σ) (before : List (String × String)) :
    List (Step σ) → List (String × String)
  | [] => before
  | step :: steps =>
    (s.after disk step).successes
      (if step.forgets then [] else before ++ (s.success? disk step).toList) steps

/-! ### What a step does, given what is remembered -/

/-- A fetcher with its sink is nothing but the map of what is remembered. -/
structure Obeys (s : Scene σ) : Prop where
  /-- What is remembered is answered, whatever happened to the file. -/
  known : ∀ path text, s.memory (Source.file path : Source U).id = some text →
    s.load disk path = .ok text
  /-- Any other file is read. -/
  unknown : ∀ path, s.memory (Source.file path : Source U).id = none →
    s.load disk path = s.loadUncached disk path
  uncached : ∀ path, Reads (disk.world s.files) path (s.loadUncached disk path)
  /-- A load that hands its text to a sink fails only as the load does. -/
  into : ∀ step path, step.loaded? = some path → step.buffer? ≠ none →
    s.reply disk step = (s.load disk path).map fun _ => .done
  isCached : ∀ path, s.reply disk (.isCached path)
    = .ok (.cached (s.memory (Source.file path : Source U).id).isSome)
  /-- A step that fails changes nothing. -/
  failed : ∀ step e, s.reply disk step = .error e → s.after disk step = s
  /-- A text is written to the end of one buffer, and no other buffer changes. -/
  injected : ∀ step path key text, step.loaded? = some path → step.buffer? = some key →
    s.load disk path = .ok text → ∀ other, (s.after disk step).session.sink.get? other
      = if other = key then some ((s.session.sink.get? key).getD "" ++ process text)
        else s.session.sink.get? other
  /-- No other step writes to the sink. -/
  sink : ∀ step, step.buffer? = none → (s.after disk step).session.sink = s.session.sink
  /-- No other step than a load by way of the memory or one that forgets changes what is
  remembered. -/
  fetcher : ∀ step, step.loaded? = none → step.forgets = false →
    (s.after disk step).session.fetcher = s.session.fetcher

variable {disk} {s : Scene σ} {step : Step σ} {path : FilePath}

/-- Of a step that loads, the answer is that of the load, up to the text. -/
theorem reply_of_loaded? (disk : Disk U σ) (s : Scene σ) (h : step.loaded? = some path) :
    ∃ g : String → Reply, s.reply disk step = (s.load disk path).map g ∧
      (step.buffer? ≠ none → g = fun _ => .done) := by
  have into : ∀ key, s.reply disk (.loadIntoKey path key)
      = (s.load disk path).map fun _ => .done := by
    intro key
    have hanswer := loadIntoKey_answer s.session.fetcher (disk.world s.files) (.file path) key
      s.session.sink
    refine (congrArg (Except.map fun _ => Reply.done) hanswer).trans ?_
    unfold load
    rcases (s.session.fetcher.load (disk.world s.files) (.file path)).value.1 with e | text
    · rfl
    · rfl
  rcases Step.cases_of_loaded? h with rfl | rfl | ⟨key, rfl⟩
  · exact ⟨.text, rfl, fun hb => absurd rfl hb⟩
  · exact ⟨fun _ => .done, into Sink.defaultKey, fun _ => rfl⟩
  · exact ⟨fun _ => .done, into key, fun _ => rfl⟩

theorem fetcher_after_of_loaded? (h : step.loaded? = some path) :
    (s.after disk step).session.fetcher
      = (s.session.fetcher.load (disk.world s.files) (.file path)).value.2 := by
  rcases Step.cases_of_loaded? h with rfl | rfl | ⟨key, rfl⟩
  · rfl
  · exact loadIntoKey_fst ..
  · exact loadIntoKey_fst ..

theorem fetcher_after_of_not_loaded? (h : step.loaded? = none) (hkept : step.forgets = false) :
    (s.after disk step).session.fetcher = s.session.fetcher := by
  cases step with
  | load p => cases h
  | loadInto p => cases h
  | loadIntoKey p key => cases h
  | clearCache => cases hkept
  | _ => rfl

theorem sink_after_of_buffer? {key : String} (h : step.loaded? = some path)
    (hkey : step.buffer? = some key) :
    (s.after disk step).session.sink
      = (s.session.fetcher.loadIntoKey (disk.world s.files) (.file path) key
          s.session.sink).value.2.2 := by
  rcases Step.cases_of_loaded? h with rfl | rfl | ⟨k, rfl⟩
  · cases hkey
  · obtain rfl := Option.some.inj hkey
    rfl
  · obtain rfl := Option.some.inj hkey
    rfl

theorem sink_after_of_no_buffer? (h : step.buffer? = none) :
    (s.after disk step).session.sink = s.session.sink := by
  cases step with
  | loadInto p => cases h
  | loadIntoKey p key => cases h
  | _ => rfl

theorem files_after_of_loaded? (h : step.loaded? = some path) :
    (s.after disk step).files = s.files := by
  rcases Step.cases_of_loaded? h with rfl | rfl | ⟨key, rfl⟩ <;> rfl

/-- A step that loads and fails changes nothing. -/
theorem after_of_load_error {e : FetchError} (h : step.loaded? = some path)
    (he : s.load disk path = .error e) : s.after disk step = s := by
  have hfiles : (s.after disk step).files = s.files := files_after_of_loaded? h
  have hfetcher : (s.after disk step).session.fetcher = s.session.fetcher := by
    rw [fetcher_after_of_loaded? h]
    exact load_snd_of_error he
  have hsink : (s.after disk step).session.sink = s.session.sink := by
    rcases hkey : step.buffer? with _ | key
    · exact sink_after_of_no_buffer? hkey
    · rw [sink_after_of_buffer? h hkey]
      exact loadIntoKey_sink_of_error he key _
  rcases hs : s.after disk step with ⟨files, fetcher, sink⟩
  rw [hs] at hfiles hfetcher hsink
  obtain rfl : files = s.files := hfiles
  obtain rfl : fetcher = s.session.fetcher := hfetcher
  obtain rfl : sink = s.session.sink := hsink
  rfl

/-- A step that fails loads a file, from memory or not. -/
theorem after_of_reply_error {e : FetchError} (h : s.reply disk step = .error e) :
    s.after disk step = s := by
  rcases hp : step.loaded? with _ | path
  · cases step with
    | loadUncached p => rfl
    | load p => cases hp
    | loadInto p => cases hp
    | loadIntoKey p key => cases hp
    | _ => cases h
  · obtain ⟨g, hreply, -⟩ := reply_of_loaded? disk s hp
    rcases hl : s.load disk path with e' | text
    · exact after_of_load_error hp hl
    · rw [hreply, hl] at h
      cases h

/-- **What a step does follows from what is remembered and from the files.** -/
theorem obeys (disk : Disk U σ) (s : Scene σ) : s.Obeys disk where
  known path text h := by
    unfold load
    rw [load_of_cached h]
  unknown path h := by
    unfold load
    rw [load_fst, show s.session.fetcher.cache[(Source.file path : Source U).id]? = none from h]
    rfl
  uncached path := reads_loadUncached _ path
  into step path h hb := by
    obtain ⟨g, hreply, hg⟩ := reply_of_loaded? disk s h
    rw [hreply, hg hb]
  isCached path :=
    congrArg (fun b => Except.ok (Reply.cached b)) Std.HashMap.contains_eq_isSome_getElem?
  failed step e h := after_of_reply_error h
  injected step path key text h hkey htext other := by
    rw [sink_after_of_buffer? h hkey, loadIntoKey_sink_of_ok htext]
    by_cases hother : other = key
    · rw [if_pos hother, hother, Sink.get?_append_self]
    · rw [if_neg hother, Sink.get?_append_of_ne (Ne.symm hother)]
  sink step h := sink_after_of_no_buffer? h
  fetcher step h hkept := fetcher_after_of_not_loaded? h hkept

/-! ### What is remembered after some steps -/

/-- Some loads are remembered: the first text under each name, if anything is remembered at all. -/
def Remembers (s : Scene σ) (loads : List (String × String)) : Prop :=
  ∀ name, s.memory name = if s.session.fetcher.remembers then loads.lookup name else none

theorem success?_of_loaded? (h : step.loaded? = some path) :
    s.success? disk step
      = (s.load disk path).toOption.map fun text => ((Source.file path : Source U).id, text) := by
  obtain ⟨g, hreply, -⟩ := reply_of_loaded? disk s h
  unfold success?
  rw [h, hreply]
  rcases hl : s.load disk path with e | text
  · rfl
  · dsimp only [Except.map]
    rw [hl]

theorem success?_of_not_loaded? (h : step.loaded? = none) : s.success? disk step = none := by
  unfold success?
  rw [h]

theorem remembers_after (disk : Disk U σ) (s : Scene σ) (step : Step σ) :
    (s.after disk step).session.fetcher.remembers = s.session.fetcher.remembers := by
  unfold after
  rcases step.call? (disk.world s.files) with _ | call
  · rfl
  · exact Session.remembers_after call

theorem lookup_toList_map (name key : String) (text? : Option String) :
    List.lookup name (text?.map fun text => (key, text)).toList
      = if key = name then text? else none := by
  rcases text? with _ | text
  · simp
  · rw [Option.map_some, Option.toList_some, List.lookup_cons]
    by_cases h : key = name
    · simp [h]
    · rw [if_neg h, beq_false_of_ne (Ne.symm h)]
      rfl

/-- A load that succeeds adds its text, if nothing stands under its name yet. -/
theorem remembers_after_of_loaded? {loads : List (String × String)} (hs : s.Remembers loads)
    (h : step.loaded? = some path) :
    (s.after disk step).Remembers (loads ++ (s.success? disk step).toList) := by
  intro name
  rw [remembers_after, memory, fetcher_after_of_loaded? h]
  rcases hr : s.session.fetcher.remembers with _ | _
  · rw [load_snd_of_not_remembers hr, if_neg Bool.false_ne_true]
    have hname := hs name
    rwa [hr, if_neg Bool.false_ne_true] at hname
  · have hold : ∀ name, s.session.fetcher.cache[name]? = loads.lookup name := by
      intro name
      have hname := hs name
      rwa [hr, if_pos rfl] at hname
    rw [cache_load hr, hold, success?_of_loaded? h, if_pos rfl, List.lookup_append,
      lookup_toList_map]
    by_cases hname : (Source.file path : Source U).id = name
    · subst hname
      rw [if_pos rfl, if_pos rfl, load, load_fst, hold]
      rcases loads.lookup (Source.file path : Source U).id with _ | text
      · rfl
      · rfl
    · rw [if_neg hname, if_neg hname, Option.or_none]

/-- Each step makes of what is remembered what it makes of the loads. -/
theorem remembers_step {loads : List (String × String)} (hs : s.Remembers loads)
    (step : Step σ) :
    (s.after disk step).Remembers
      (if step.forgets then [] else loads ++ (s.success? disk step).toList) := by
  rcases hp : step.loaded? with _ | path
  · rw [success?_of_not_loaded? hp, Option.toList_none, List.append_nil]
    rcases hf : step.forgets with _ | _
    · intro name
      rw [memory, fetcher_after_of_not_loaded? hp hf, if_neg Bool.false_ne_true]
      exact hs name
    · cases step with
      | clearCache =>
          intro name
          rw [if_pos rfl, List.lookup_nil, ite_self]
          exact Std.HashMap.getElem?_empty
      | _ => cases hf
  · have hf : step.forgets = false := by
      rcases Step.cases_of_loaded? hp with rfl | rfl | ⟨key, rfl⟩ <;> rfl
    rw [hf, if_neg Bool.false_ne_true]
    exact remembers_after_of_loaded? hs hp

/-- **What is remembered are the loads that succeeded.** -/
theorem remembers_run (disk : Disk U σ) {loads : List (String × String)} (hs : s.Remembers loads)
    (steps : List (Step σ)) :
    (s.run disk steps).Remembers (s.successes disk loads steps) := by
  induction steps generalizing s loads with
  | nil => exact hs
  | cons step steps ih => exact ih (remembers_step hs step)

theorem fetcher_remembers_run (disk : Disk U σ) (s : Scene σ) (steps : List (Step σ)) :
    (s.run disk steps).session.fetcher.remembers = s.session.fetcher.remembers := by
  induction steps generalizing s with
  | nil => rfl
  | cons step steps ih => exact (ih _).trans (remembers_after disk s step)

/-- **A fetcher is a map.**  After any steps it remembers, of the loads that succeeded since it last
forgot everything, the first text under each name, and nothing if it is told to remember nothing.
What the next step answers and changes follows from that and from the files as they are then. -/
theorem memory_run (disk : Disk U σ) (remembers : Bool) (files : σ) (sink : Sink)
    (steps : List (Step σ)) :
    (∀ name, ((start remembers files sink).run disk steps).memory name
      = if remembers then ((start remembers files sink).successes disk [] steps).lookup name
        else none) ∧
    ((start remembers files sink).run disk steps).Obeys disk ∧
    (remembers = false → ∀ path, ((start remembers files sink).run disk steps).load disk path
      = ((start remembers files sink).run disk steps).loadUncached disk path) := by
  have hstart : (start remembers files sink).Remembers [] := by
    intro name
    rw [List.lookup_nil, ite_self]
    exact Std.HashMap.getElem?_empty
  have hmemory : ∀ name, ((start remembers files sink).run disk steps).memory name
      = if remembers then ((start remembers files sink).successes disk [] steps).lookup name
        else none := by
    intro name
    have hname := remembers_run disk hstart steps name
    rwa [fetcher_remembers_run] at hname
  refine ⟨hmemory, obeys disk _, ?_⟩
  rintro rfl path
  exact (obeys disk _).unknown path (hmemory _)

/-- A file that is written again after it was loaded is answered from memory. -/
theorem memory_run_overwritten :
    ∃ (path : FilePath) (old new : Step FileTree) (s : Scene FileTree),
      old = .write path (Text.Utf8.encode "old") ∧ new = .write path (Text.Utf8.encode "new") ∧
      s = (start true .empty .empty).run Disk.trees [old, .load path, new] ∧
      s.load Disk.trees path = .ok "old" ∧ s.loadUncached Disk.trees path = .ok "new" := by
  refine ⟨.ofString "a.css", .write (.ofString "a.css") (Text.Utf8.encode "old"),
    .write (.ofString "a.css") (Text.Utf8.encode "new"), _, rfl, rfl, rfl, ?_, by decide +kernel⟩
  obtain ⟨hmemory, hobeys, -⟩ := memory_run Disk.trees true .empty .empty
    [.write (.ofString "a.css") (Text.Utf8.encode "old"), .load (.ofString "a.css"),
      .write (.ofString "a.css") (Text.Utf8.encode "new")]
  refine hobeys.known _ _ ((hmemory _).trans ?_)
  have hload : ((start true FileTree.empty .empty).after Disk.trees
      (.write (.ofString "a.css") (Text.Utf8.encode "old"))).load Disk.trees (.ofString "a.css")
        = .ok "old" := by
    rw [(obeys _ _).unknown _ Std.HashMap.getElem?_empty]
    decide +kernel
  have hsuccess : ((start true FileTree.empty .empty).after Disk.trees
      (.write (.ofString "a.css") (Text.Utf8.encode "old"))).success? Disk.trees
        (.load (.ofString "a.css"))
          = some ((Source.file (.ofString "a.css") : Source Url).id, "old") := by
    rw [success?_of_loaded? rfl, hload]
    rfl
  rw [if_pos rfl, successes, successes, successes, successes, hsuccess]
  decide +kernel

end Scene

end Fetcher

end FlatSheet
