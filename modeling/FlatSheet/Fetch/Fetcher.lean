/-
Fetching sheets.

A fetcher remembers what it has fetched, under the name of the source, and answers from
memory from then on.  What fails is not remembered.  A fetcher can be told to remember
nothing.
-/
import Std.Data.HashMap
import FlatSheet.Fetch.Client
import FlatSheet.Fetch.Source
import FlatSheet.Fetch.World
import FlatSheet.Sink

namespace FlatSheet

/-- A fetcher and what it remembers. -/
structure Fetcher where
  /-- The texts that were fetched, by the names of their sources. -/
  cache : Std.HashMap String String
  /-- Whether anything is remembered. -/
  remembers : Bool

namespace Fetcher

/-- The name under which a fetcher writes to the log. -/
def logTarget : String := "stylenest_net::fetcher"

/-- A fetcher that has fetched nothing. -/
def new (remembers : Bool) : Fetcher := ⟨∅, remembers⟩

variable {U : Type}

/-- Makes a fetcher, and a client for it. -/
def make (w : World U) (remembers : Bool) (c : ClientConfig) : Except FetchError Fetcher := do
  Client.make w c
  return new remembers

variable [Addressing U]

/-- Reads a source as it is at this moment. -/
def loadUncached (w : World U) (s : Source U) : Logged (Except FetchError String) :=
  match s with
  | .remote url => do
    match ← Client.get w url with
    | .error e => return .error e
    | .ok response =>
      if response.isSuccess then do
        if !response.isStylesheet then
          Logged.say .debug logTarget
            s!"{url} served as {response.shownContentType}, reading it anyway"
        return response.text
      else return .error (.httpError response.status (toString url))
  | .file path => do
    Logged.say .debug logTarget s!"Reading: {path.display}"
    match w.read path with
    | .error reason => return .error (.io path reason)
    | .ok bytes =>
      match Text.Utf8.decode? bytes with
      | some text => return .ok text
      | none => return .error (.encoding path.display)

/-- The text of a source, from memory if it is there. -/
def load (f : Fetcher) (w : World U) (s : Source U) : Logged (Except FetchError String × Fetcher) :=
  match f.cache[s.id]? with
  | some text => do
    Logged.say .debug logTarget s!"Cache hit: {s.id}"
    return (.ok text, f)
  | none => do
    match ← loadUncached w s with
    | .error e => return (.error e, f)
    | .ok text =>
      return (.ok text, if f.remembers then { f with cache := f.cache.insert s.id text } else f)

/-- Fetches a sheet and injects it into a buffer. -/
def loadIntoKey (f : Fetcher) (w : World U) (s : Source U) (key : String) (sink : Sink) :
    Logged (Except FetchError Unit × Fetcher × Sink) := do
  match ← f.load w s with
  | (.error e, f) => return (.error e, f, sink)
  | (.ok text, f) => return (.ok (), f, ← sink.injectInto key text)

/-- Fetches a sheet and injects it into the default buffer. -/
def loadInto (f : Fetcher) (w : World U) (s : Source U) (sink : Sink) :
    Logged (Except FetchError Unit × Fetcher × Sink) :=
  f.loadIntoKey w s Sink.defaultKey sink

/-- The text of a source is remembered. -/
def isCached (f : Fetcher) (s : Source U) : Bool := f.cache.contains s.id

/-- How many texts are remembered. -/
def cachedLength (f : Fetcher) : Nat := f.cache.size

/-- Forgets everything. -/
def clearCache (f : Fetcher) : Fetcher := { f with cache := ∅ }

end Fetcher

end FlatSheet
