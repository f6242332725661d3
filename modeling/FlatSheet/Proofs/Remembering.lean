/-
What a fetcher remembers.

The memory is looked at one name at a time.  Each call makes something of the text under
a name: a load adds one if there is none yet, forgetting takes it away, and nothing else
touches it (`Session.cache_after`).  So after any calls the text under a name is the one
that was fetched first since everything was last forgotten (`Session.cache_run`).

Each call finds the world as it is at its own moment, and nothing is assumed about what
happens to the world in between.
-/
import FlatSheet.Fetch.Fetcher
import FlatSheet.Proofs.Addressing
import FlatSheet.Proofs.Naming
import Mathlib.Data.List.Induction

namespace FlatSheet

namespace Fetcher

variable {U : Type} [Addressing U] {f : Fetcher} {w : World U} {s : Source U} {name text : String}

/-! ### One load -/

theorem load_of_cached (h : f.cache[s.id]? = some text) : (f.load w s).value = (.ok text, f) := by
  unfold load
  rw [h]
  rfl

theorem load_of_not_cached (h : f.cache[s.id]? = none) :
    (f.load w s).value = match (loadUncached w s).value with
      | .error e => (.error e, f)
      | .ok text =>
        (.ok text, if f.remembers then { f with cache := f.cache.insert s.id text } else f) := by
  unfold load
  rw [h, Logged.value_bind]
  rcases (loadUncached w s).value with e | text
  · rfl
  · rfl

/-- The text that a source has at a moment, if it has one. -/
def fetched? (w : World U) (s : Source U) : Option String := (loadUncached w s).value.toOption

theorem fetched?_eq_some (h : fetched? w s = some text) : (loadUncached w s).value = .ok text := by
  unfold fetched? at h
  rcases hu : (loadUncached w s).value with e | text'
  · rw [hu] at h
    cases h
  · rw [hu] at h
    cases h
    rfl

/-- What a load leaves of the memory, under any name. -/
theorem cache_load (hf : f.remembers = true) (name : String) :
    (f.load w s).value.2.cache[name]?
      = if s.id = name then f.cache[name]?.or (fetched? w s) else f.cache[name]? := by
  by_cases hname : s.id = name
  · subst hname
    rw [if_pos rfl]
    rcases h : f.cache[s.id]? with _ | text
    · rw [load_of_not_cached h, Option.none_or, fetched?]
      rcases (loadUncached w s).value with e | text
      · exact h
      · dsimp only
        rw [if_pos hf, Std.HashMap.getElem?_insert_self]
        rfl
    · rw [load_of_cached h, h]
      rfl
  · rw [if_neg hname]
    rcases h : f.cache[s.id]? with _ | text
    · rw [load_of_not_cached h]
      rcases (loadUncached w s).value with e | text
      · rfl
      · dsimp only
        rw [if_pos hf, Std.HashMap.getElem?_insert, if_neg (by simpa using hname)]
    · rw [load_of_cached h]

theorem remembers_load : (f.load w s).value.2.remembers = f.remembers := by
  rcases h : f.cache[s.id]? with _ | text
  · rw [load_of_not_cached h]
    split
    · rfl
    · split
      · rfl
      · rfl
  · rw [load_of_cached h]

theorem load_fst (f : Fetcher) (w : World U) (s : Source U) :
    (f.load w s).value.1 = match f.cache[s.id]? with
      | some text => .ok text
      | none => (loadUncached w s).value := by
  rcases h : f.cache[s.id]? with _ | text
  · rw [load_of_not_cached h]
    rcases (loadUncached w s).value with e | text
    · rfl
    · rfl
  · rw [load_of_cached h]

/-- A load that hands its text to a sink is a load. -/
theorem loadIntoKey_fst (f : Fetcher) (w : World U) (s : Source U) (key : String) (sink : Sink) :
    (f.loadIntoKey w s key sink).value.2.1 = (f.load w s).value.2 := by
  unfold loadIntoKey
  rw [Logged.value_bind]
  rcases (f.load w s).value with ⟨e | text, f'⟩
  · rfl
  · rfl

/-! ### Calls -/

/-- A call on a fetcher that hands texts to a sink, with the world as it is at that moment. -/
inductive Call (U : Type) where
  | load (w : World U) (s : Source U)
  | loadUncached (w : World U) (s : Source U)
  | loadInto (w : World U) (s : Source U)
  | loadIntoKey (w : World U) (s : Source U) (key : String)
  | isCached (s : Source U)
  | clearCache

namespace Call

/-- The source that a call loads by way of the memory, and the world in which it does. -/
def loaded? : Call U → Option (World U × Source U)
  | load w s | loadInto w s | loadIntoKey w s _ => some (w, s)
  | loadUncached _ _ | isCached _ | clearCache => none

/-- The call forgets everything. -/
def forgets : Call U → Bool
  | clearCache => true
  | _ => false

/-- What a call makes of the text that is remembered under a name.  Only the first text counts. -/
def leaves (name : String) (memory : Option String) (call : Call U) : Option String :=
  match call.loaded? with
  | some (w, s) => if s.id = name then memory.or (fetched? w s) else memory
  | none => if call.forgets then none else memory

omit [Addressing U] in
theorem not_forgets_of_loaded? {call : Call U} {m : World U × Source U} (h : call.loaded? = some m) :
    call.forgets = false := by
  cases call with
  | clearCache => cases h
  | _ => rfl

/-- A text that a call leaves was there before, or the call has fetched it. -/
theorem leaves_eq_some {name text : String} {memory : Option String} {call : Call U}
    (h : call.leaves name memory = some text) :
    memory = some text ∧ call.forgets = false ∨
      memory = none ∧
        ∃ w s, call.loaded? = some (w, s) ∧ s.id = name ∧ fetched? w s = some text := by
  unfold leaves at h
  rcases hm : call.loaded? with _ | ⟨w, s⟩
  · rw [hm] at h
    dsimp only at h
    split at h
    next => cases h
    next hkept => exact Or.inl ⟨h, by simpa using hkept⟩
  · have hkept := not_forgets_of_loaded? hm
    rw [hm] at h
    dsimp only at h
    split at h
    next hname =>
      rcases memory with _ | old
      · exact Or.inr ⟨rfl, w, s, rfl, hname, h⟩
      · exact Or.inl ⟨h, hkept⟩
    next => exact Or.inl ⟨h, hkept⟩

/-- A text that some calls leave was fetched by one of them, and nothing was forgotten since. -/
theorem exists_of_foldl_leaves {name text : String} {calls : List (Call U)}
    (h : calls.foldl (leaves name) none = some text) :
    ∃ before call after w s, calls = before ++ call :: after ∧ call.loaded? = some (w, s) ∧
      s.id = name ∧ fetched? w s = some text ∧ ∀ c ∈ after, c.forgets = false := by
  induction calls using List.reverseRecOn with
  | nil => cases h
  | append_singleton calls last ih =>
      rw [List.foldl_append, List.foldl_cons, List.foldl_nil] at h
      rcases leaves_eq_some h with ⟨hold, hkept⟩ | ⟨-, w, s, hm, hname, htext⟩
      · obtain ⟨before, call, after, w, s, rfl, hm, hname, htext, hafter⟩ := ih hold
        refine ⟨before, call, after ++ [last], w, s, ?_, hm, hname, htext, ?_⟩
        · rw [List.append_assoc, List.cons_append]
        · intro c hc
          rcases List.mem_append.mp hc with hc | hc
          · exact hafter c hc
          · rw [List.mem_singleton.mp hc]
            exact hkept
      · exact ⟨calls, last, [], w, s, rfl, hm, hname, htext, by simp⟩

end Call

/-- A fetcher and the sink that it hands its texts to. -/
structure Session where
  fetcher : Fetcher
  sink : Sink

namespace Session

/-- The session after a call. -/
def after (c : Session) : Call U → Session
  | .load w s => { c with fetcher := (c.fetcher.load w s).value.2 }
  | .loadUncached _ _ | .isCached _ => c
  | .loadInto w s =>
    let r := (c.fetcher.loadInto w s c.sink).value
    ⟨r.2.1, r.2.2⟩
  | .loadIntoKey w s key =>
    let r := (c.fetcher.loadIntoKey w s key c.sink).value
    ⟨r.2.1, r.2.2⟩
  | .clearCache => { c with fetcher := c.fetcher.clearCache }

/-- The session after some calls. -/
def run (c : Session) (calls : List (Call U)) : Session := calls.foldl after c

variable {c : Session}

/-- Of a call the fetcher notices only what is loaded, and whether to forget. -/
theorem fetcher_after (c : Session) (call : Call U) :
    (c.after call).fetcher = match call.loaded? with
      | some (w, s) => (c.fetcher.load w s).value.2
      | none => if call.forgets then c.fetcher.clearCache else c.fetcher := by
  cases call with
  | loadInto w s => exact loadIntoKey_fst ..
  | loadIntoKey w s key => exact loadIntoKey_fst ..
  | _ => rfl

theorem remembers_after (call : Call U) :
    (c.after call).fetcher.remembers = c.fetcher.remembers := by
  rw [fetcher_after]
  split
  · exact remembers_load
  · split
    · rfl
    · rfl

/-- Each call does to the memory what it leaves of every text in it. -/
theorem cache_after (hc : c.fetcher.remembers = true) (name : String) (call : Call U) :
    (c.after call).fetcher.cache[name]? = call.leaves name c.fetcher.cache[name]? := by
  rw [fetcher_after, Call.leaves]
  split
  · exact cache_load hc name
  · split
    · exact Std.HashMap.getElem?_empty
    · rfl

/-- **Calls do to the memory what they leave of every text in it, one after the other.** -/
theorem cache_run (hc : c.fetcher.remembers = true) (name : String) (calls : List (Call U)) :
    (c.run calls).fetcher.cache[name]?
      = calls.foldl (Call.leaves name) c.fetcher.cache[name]? := by
  induction calls generalizing c with
  | nil => rfl
  | cons call calls ih =>
      rw [List.foldl_cons, ← cache_after hc name call]
      exact ih ((remembers_after call).trans hc)

/-- The beginning of a session: nothing is remembered yet, and from now on everything is. -/
def start (sink : Sink) : Session := ⟨.new true, sink⟩

theorem cache_run_start (sink : Sink) (name : String) (calls : List (Call U)) :
    ((start sink).run calls).fetcher.cache[name]? = calls.foldl (Call.leaves name) none := by
  rw [cache_run rfl]
  exact congrArg (calls.foldl (Call.leaves name)) Std.HashMap.getElem?_empty

end Session

/-- Some call fetched a text for a source, and nothing was forgotten since. -/
def Loaded (calls : List (Call U)) (a : Source U) (text : String) : Prop :=
  ∃ before call after w, calls = before ++ call :: after ∧ call.loaded? = some (w, a) ∧
    (loadUncached w a).value = .ok text ∧ ∀ c ∈ after, c.forgets = false

/-- A load is answered rightly after some calls: from memory with a text that one of them fetched for
the same source, unless two paths are blurred, and otherwise with the text that the source has now. -/
def Answers (f : Fetcher) (calls : List (Call U)) (w : World U) (s : Source U) : Prop :=
  if f.isCached s then
    ∃ a text, Loaded calls a text ∧ (a.same s = true ∨ Source.Blurred a s) ∧
      (f.load w s).value.1 = .ok text
  else (f.load w s).value.1 = (loadUncached w s).value

variable [LawfulAddressing U]

theorem answers_run (sink : Sink) {calls : List (Call U)}
    (hcalls : ∀ call ∈ calls, ∀ m ∈ call.loaded?, m.2.Named) (w : World U) {s : Source U}
    (hs : s.Named) : Answers ((Session.start sink).run calls).fetcher calls w s := by
  have hcache := Session.cache_run_start sink s.id calls
  generalize ((Session.start sink).run calls).fetcher = f at hcache ⊢
  have hcached : f.isCached s = (f.cache[s.id]?).isSome := Std.HashMap.contains_eq_isSome_getElem?
  unfold Answers
  rw [load_fst, hcached]
  rcases h : f.cache[s.id]? with _ | text
  · rw [if_neg (by simp)]
  · rw [if_pos Option.isSome_some]
    obtain ⟨before, call, after, w', a, hsplit, hm, hname, htext, hafter⟩ :=
      Call.exists_of_foldl_leaves (hcache.symm.trans h)
    have ha : a.Named := hcalls call (by simp [hsplit]) (w', a) hm
    refine ⟨a, text, ?_, Source.same_of_id_eq ha hs hname, rfl⟩
    exact ⟨before, call, after, w', hsplit, hm, fetched?_eq_some htext, hafter⟩

/-- **What a fetcher remembers for a source is its own.**  Another source from names and references that
has the same name is the same source, and so a load that is answered from memory has a text that was
fetched earlier for the same source; any other load has the text as it is.  Only two paths can share a
name of which one is no text. -/
theorem memory_sound (sink : Sink) {calls : List (Call U)}
    (hcalls : ∀ call ∈ calls, ∀ m ∈ call.loaded?, m.2.Named) (w : World U) {s : Source U}
    (hs : s.Named) :
    (∀ a : Source U, a.Named → a.id = s.id → a.same s = true ∨ Source.Blurred a s) ∧
      Answers ((Session.start sink).run calls).fetcher calls w s := by
  refine ⟨?_, answers_run sink hcalls w hs⟩
  intro a ha h
  exact Source.same_of_id_eq ha hs h

/-- A world in which each file holds one word, and a server answers with the word of the file whose path
is written like the address. -/
def ofWord (word : FilePath → String) : World Url where
  read p := .ok (Text.Utf8.encode (word p))
  client _ := .ok ()
  send u := .ok ⟨u, 200, [], .ok (Text.Utf8.encode (word (.ofString (toString u))))⟩

/-- The sheets in one directory on the web. -/
def beside (name : String) : Source Url :=
  .remote ⟨"http", some ⟨"", none, some (.name "a.example"), none⟩, .segments ["d", name], none, none⟩

/-- A sheet on the web that was loaded is remembered for a reference to it from beside it, whatever it
is by then. -/
theorem memory_sound_reference :
    ∃ a b s : Source Url, Source.parse "http://a.example/d/a.css" = .ok a ∧
      Source.parse "http://a.example/d/b.css" = .ok b ∧ b.resolve "a.css" = .ok s ∧
      Answers ((Session.start .empty).run [.load (ofWord fun _ => "old") a]).fetcher
        [.load (ofWord fun _ => "old") a] (ofWord fun _ => "new") s ∧
      (((Session.start .empty).run [.load (ofWord fun _ => "old") a]).fetcher.load
        (ofWord fun _ => "new") s).value.1 = .ok "old" := by
  have ha : Source.parse "http://a.example/d/a.css" = .ok (beside "a.css") := by decide +kernel
  have hb : Source.parse "http://a.example/d/b.css" = .ok (beside "b.css") := by decide +kernel
  have hs : (beside "b.css").resolve "a.css" = .ok (beside "a.css") := by decide +kernel
  refine ⟨_, _, _, ha, hb, hs, ?_, ?_⟩
  · refine (memory_sound .empty ?_ _ (.resolve (.parse hb) hs)).2
    intro call hcall m hm
    obtain rfl := List.mem_singleton.mp hcall
    cases hm
    exact .parse ha
  · rw [load_fst, Session.cache_run_start]
    decide +kernel

/-- Two files whose paths are no texts share a name, and one is answered with the text of the other. -/
theorem memory_blurred :
    ∃ a b : Source Url, Source.parse "file:///%FF" = .ok a ∧ Source.parse "file:///%FE" = .ok b ∧
      a.id = b.id ∧ a.same b = false ∧
      ∃ w : World Url, (loadUncached w b).value = .ok "b" ∧
        (((Session.start .empty).run [.load w a]).fetcher.load w b).value.1 = .ok "a" := by
  refine ⟨.file ⟨[0x2F, 0xFF]⟩, .file ⟨[0x2F, 0xFE]⟩, by decide +kernel, by decide +kernel,
    by decide +kernel, by decide +kernel,
    ofWord fun p => if p.bytes = [0x2F, 0xFF] then "a" else "b", by decide +kernel, ?_⟩
  rw [load_fst, Session.cache_run_start]
  decide +kernel

end Fetcher

end FlatSheet
