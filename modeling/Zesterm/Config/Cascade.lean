/-
Zesterm.Config.Cascade — the merging of configuration layers and where each
value came from: `zest-config`'s `cascade.rs`.

A TOML table is a list of entries with distinct keys (`Distinct`); a value
that is no table is opaque. The provenance is a function of the dotted key.
Reading the merged table as typed settings is left out, and so is the list
of unknown keys.
-/
import Zesterm.Core.Cell
import Zesterm.Lib.KeyTree

namespace Zesterm

namespace Cascade

open KeyTree

variable {V : Type}

/-- Where a value came from. -/
inductive Source where
  | default
  | user
  | profile (name : Str)
  | workspace
  | commandLine
  deriving DecidableEq

/-- One layer waiting to be merged. -/
structure Layer (V : Type) where
  source : Source
  table : Entries Str V

/-- Each dotted key's last writer. -/
abbrev Provenance := Str → Option Source

def Provenance.insert (p : Provenance) (path : Str) (source : Source) : Provenance :=
  fun key => if key = path then some source else p key

/-- The settings groups: `is_mergeable`. -/
def groups : List Str :=
  ["typography", "appearance", "window", "tabs", "shell", "scrolling", "cursor", "motion",
    "prompt", "history"].map String.toList

def isMergeable (path : Str) : Bool := groups.contains path

/-- The dotted key of `key` at `path`. -/
def join (path key : Str) : Str := if path.isEmpty then key else path ++ '.' :: key

/-- The entries of the group under a key; what is no table is as good as none. -/
def existing (key : Str) (dst : Entries Str V) : Entries Str V :=
  match find key dst with
  | some (.table es) => es
  | _ => []

mutual

/-- `merge_into`: tables merge key by key where they are groups; anything else
replaces wholesale. -/
def mergeInto (source : Source) (path : Str) :
    (src : Entries Str V) → Entries Str V × Provenance → Entries Str V × Provenance
  | [], s => s
  | e :: src, s => mergeInto source path src (mergeEntry source path e s)

/-- One entry of it. -/
def mergeEntry (source : Source) (path : Str) :
    Str × Item Str V → Entries Str V × Provenance → Entries Str V × Provenance
  | (key, .table incoming), s =>
    if isMergeable (join path key) then
      let merged := mergeInto source (join path key) incoming (existing key s.1, s.2)
      (put key (.table merged.1) s.1, merged.2)
    else (put key (.table incoming) s.1, s.2.insert (join path key) source)
  | (key, .value v), s => (put key (.value v) s.1, s.2.insert (join path key) source)

end

/-- `resolve`: layers in order, weakest first. -/
def resolve (layers : List (Layer V)) : Entries Str V × Provenance :=
  layers.foldl (fun s layer => mergeInto layer.source [] layer.table s) ([], fun _ => none)

end Cascade

end Zesterm
