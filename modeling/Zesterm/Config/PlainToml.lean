/-
Zesterm.Config.PlainToml — a small TOML that reads what it writes.

The laws of `Toml` are met: booleans, and tables written inline, as they
stand in a file where a person wrote them so. A document is one line for
each of its keys.
-/
import Zesterm.Config.Edit

namespace Zesterm.Config.PlainToml

open KeyTree

/-! ## Writing -/

def isBare (c : Char) : Bool := c.isAlphanum || c == '_' || c == '-'

def escaped : Str → Str
  | [] => ['"']
  | c :: s => if c = '"' ∨ c = '\\' then '\\' :: c :: escaped s else c :: escaped s

/-- A bare key, or a quoted one. -/
def printKey (k : Str) : Str := if k ≠ [] ∧ k.all isBare then k else '"' :: escaped k

mutual

def printItem : KeyTree.Item Str Bool → Str
  | .value true => ['t', 'r', 'u', 'e']
  | .value false => ['f', 'a', 'l', 's', 'e']
  | .table entries => '{' :: printEntries entries

/-- The entries of an inline table and its closing brace. -/
def printEntries : Doc Bool → Str
  | [] => ['}']
  | e :: entries => printEntry e ++
      match entries with
      | [] => [' ', '}']
      | _ :: _ => ',' :: printEntries entries

def printEntry : Str × KeyTree.Item Str Bool → Str
  | (k, i) => ' ' :: (printKey k ++ [' ', '=', ' '] ++ printItem i)

end

/-- One line for each key. -/
def print (doc : Doc Bool) : Str :=
  doc.flatMap fun e => printKey e.1 ++ [' ', '=', ' '] ++ printItem e.2 ++ ['\n']

/-! ## Reading -/

def unescaped : Str → Option (Str × Str)
  | [] => none
  | '"' :: s => some ([], s)
  | '\\' :: c :: s => (unescaped s).map fun r => (c :: r.1, r.2)
  | c :: s => (unescaped s).map fun r => (c :: r.1, r.2)

def parseKey (s : Str) : Option (Str × Str) :=
  match s with
  | '"' :: s => unescaped s
  | _ => if s.takeWhile isBare = [] then none else some (s.takeWhile isBare, s.dropWhile isBare)

mutual

def parseItem : Nat → Str → Option (KeyTree.Item Str Bool × Str)
  | 0, _ => none
  | fuel + 1, s =>
    match s with
    | 't' :: 'r' :: 'u' :: 'e' :: s => some (.value true, s)
    | 'f' :: 'a' :: 'l' :: 's' :: 'e' :: s => some (.value false, s)
    | '{' :: '}' :: s => some (.table [], s)
    | '{' :: s => (parseEntries fuel s).map fun r => (.table r.1, r.2)
    | _ => none

def parseEntries : Nat → Str → Option (Doc Bool × Str)
  | 0, _ => none
  | fuel + 1, s =>
    match s with
    | ' ' :: s => do
      let (k, s) ← parseKey s
      match s with
      | ' ' :: '=' :: ' ' :: s =>
        let (i, s) ← parseItem fuel s
        match s with
        | ' ' :: '}' :: s => some ([(k, i)], s)
        | ',' :: s => (parseEntries fuel s).map fun r => ((k, i) :: r.1, r.2)
        | _ => none
      | _ => none
    | _ => none

end

def parseLines : Nat → Str → Option (Doc Bool)
  | _, [] => some []
  | 0, _ => none
  | fuel + 1, s => do
    let (k, s) ← parseKey s
    match s with
    | ' ' :: '=' :: ' ' :: s =>
      let (i, s) ← parseItem fuel s
      match s with
      | '\n' :: s => (parseLines fuel s).map fun doc => (k, i) :: doc
      | _ => none
    | _ => none

def parse (text : Str) : Except Str (Doc Bool) :=
  match parseLines text.length text with
  | some doc => .ok doc
  | none => .error "TOML parse error".toList

/-! ## Reading back -/

theorem unescaped_escaped (k s : Str) : unescaped (escaped k ++ s) = some (k, s) := by
  induction k with
  | nil => rfl
  | cons c k ih =>
    rw [escaped]
    split
    · next hc =>
      rcases hc with rfl | rfl <;> simp [unescaped, ih]
    · next hc =>
      obtain ⟨hquote, hslash⟩ := not_or.mp hc
      rw [List.cons_append, unescaped, ih]
      · rfl
      · exact hquote
      · rintro c' s' rfl
        exact fun _ => hslash rfl

theorem parseKey_printKey (k s : Str) : parseKey (printKey k ++ ' ' :: s) = some (k, ' ' :: s) := by
  rw [printKey]
  split
  · next hbare =>
    obtain ⟨hne, hall⟩ := hbare
    have htake : (k ++ ' ' :: s).takeWhile isBare = k := by
      rw [List.takeWhile_append_of_pos (List.all_eq_true.mp hall)]
      simp [isBare]
    have hdrop : (k ++ ' ' :: s).dropWhile isBare = ' ' :: s := by
      rw [List.dropWhile_append_of_pos (List.all_eq_true.mp hall)]
      simp [isBare]
    unfold parseKey
    split
    · next _ s' hquote =>
      obtain ⟨c, k, rfl⟩ := List.exists_cons_of_ne_nil hne
      obtain ⟨rfl, -⟩ := List.cons.inj hquote
      simp [isBare] at hall
    · rw [htake, hdrop, if_neg hne]
  · exact unescaped_escaped k _

theorem printItem_ne_nil (i : KeyTree.Item Str Bool) : 0 < (printItem i).length := by
  cases i with
  | value b => cases b <;> simp [printItem]
  | table entries => simp [printItem]

theorem printEntries_single (k : Str) (i : KeyTree.Item Str Bool) :
    printEntries [(k, i)] = ' ' :: (printKey k ++ ' ' :: '=' :: ' ' :: (printItem i ++ [' ', '}'])) := by
  simp [printEntries, printEntry]

theorem printEntries_cons (k : Str) (i : KeyTree.Item Str Bool) (e : Str × KeyTree.Item Str Bool)
    (es : Doc Bool) :
    printEntries ((k, i) :: e :: es) =
      ' ' :: (printKey k ++ ' ' :: '=' :: ' ' :: (printItem i ++ ',' :: printEntries (e :: es))) := by
  rw [printEntries, printEntry]
  simp

theorem exists_printEntries (e : Str × KeyTree.Item Str Bool) (es : Doc Bool) :
    ∃ t, printEntries (e :: es) = ' ' :: t := by
  obtain ⟨k, i⟩ := e
  cases es with
  | nil => exact ⟨_, printEntries_single k i⟩
  | cons e es => exact ⟨_, printEntries_cons k i e es⟩

/-- Every item and every table reads back, given fuel for its length. -/
theorem parse_printed (fuel : Nat) :
    (∀ i s, (printItem i).length ≤ fuel → parseItem fuel (printItem i ++ s) = some (i, s)) ∧
      ∀ e es s, (printEntries (e :: es)).length ≤ fuel →
        parseEntries fuel (printEntries (e :: es) ++ s) = some (e :: es, s) := by
  induction fuel with
  | zero =>
    refine ⟨fun i s hlen => ?_, fun e es s hlen => ?_⟩
    · have := printItem_ne_nil i
      omega
    · obtain ⟨t, ht⟩ := exists_printEntries e es
      simp [ht] at hlen
  | succ fuel ih =>
    obtain ⟨hitem, hentries⟩ := ih
    refine ⟨fun i s hlen => ?_, fun e es s hlen => ?_⟩
    · cases i with
      | value b => cases b <;> rfl
      | table entries =>
        cases entries with
        | nil => simp [printItem, printEntries, parseItem]
        | cons e es =>
          rw [printItem, List.length_cons] at hlen
          have hread := hentries e es s (by omega)
          obtain ⟨t, ht⟩ := exists_printEntries e es
          rw [printItem, List.cons_append]
          rw [ht, List.cons_append] at hread ⊢
          simp [parseItem, hread]
    · obtain ⟨k, i⟩ := e
      cases es with
      | nil =>
        rw [printEntries_single] at hlen ⊢
        simp at hlen
        simp [parseEntries, parseKey_printKey, hitem i _ (by omega)]
      | cons e es =>
        rw [printEntries_cons] at hlen ⊢
        simp at hlen
        simp [parseEntries, parseKey_printKey, hitem i _ (by omega), hentries e es s (by omega)]

/-- Every document reads back. -/
theorem parseLines_print (doc : Doc Bool) (fuel : Nat) (h : (print doc).length ≤ fuel) :
    parseLines fuel (print doc) = some doc := by
  induction doc generalizing fuel with
  | nil => cases fuel <;> rfl
  | cons e doc ih =>
    obtain ⟨k, i⟩ := e
    have hprint : print ((k, i) :: doc) =
        printKey k ++ ' ' :: ('=' :: ' ' :: (printItem i ++ '\n' :: print doc)) := by
      simp [print]
    rw [hprint] at h ⊢
    simp at h
    cases fuel with
    | zero => omega
    | succ fuel =>
      have hne : printKey k ++ ' ' :: ('=' :: ' ' :: (printItem i ++ '\n' :: print doc)) ≠ [] := by
        simp
      have hread := parseKey_printKey k ('=' :: ' ' :: (printItem i ++ '\n' :: print doc))
      generalize printKey k ++ ' ' :: ('=' :: ' ' :: (printItem i ++ '\n' :: print doc)) = text at hne hread
      obtain ⟨c, text, rfl⟩ := List.exists_cons_of_ne_nil hne
      simp [parseLines, hread, (parse_printed fuel).1 i _ (by omega), ih fuel (by omega)]

/-- The laws of `Toml` are met. -/
def toml : Toml Bool where
  parse := parse
  print := print
  parse_nil := rfl
  parse_print doc := by rw [parse, parseLines_print doc _ (Nat.le_refl _)]

example : print [("cursor".toList, .table [("blink".toList, .value true)])] =
    "cursor = { blink = true }\n".toList := by
  decide

end Zesterm.Config.PlainToml
