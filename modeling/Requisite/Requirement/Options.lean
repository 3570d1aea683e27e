import Requisite.Requirement.Basic
import Requisite.Text.Word

/-!
# Options of a requirement text

An option is `--name=value` after a blank, wherever it stands: its name has word characters and
hyphens, and its value reaches to the next blank.

* `Options.split` — the options of a text in their order, and the text without them;
* `Options.hashes` — the values of the `hash` options, the only ones there are.
-/

namespace Requisite.Options

open Text

/-- A character of an option name. -/
def isNameChar (c : Char) : Bool :=
  isWordChar c || c == '-'

/-- The name and value of the option at the start of a text, its leading blank already read, and
what follows it. -/
def option? (cs : List Char) : Option ((List Char × List Char) × List Char) :=
  match after? "--" cs with
  | none => none
  | some cs =>
    let name := cs.takeWhile isNameChar
    match cs.dropWhile isNameChar with
    | '=' :: rest =>
      if name.isEmpty then none
      else some ((name, rest.takeWhile fun c => !isBlank c), rest.dropWhile fun c => !isBlank c)
    | _ => none

theorem option?_length {cs rest : List Char} {o : List Char × List Char}
    (h : option? cs = some (o, rest)) : rest.length ≤ cs.length := by
  unfold option? at h
  split at h
  · cases h
  · rename_i ds hd
    have h₀ : ds.length ≤ cs.length := after?_length hd
    have h₁ := (List.dropWhile_sublist isNameChar (l := ds)).length_le
    dsimp only at h
    split at h
    · rename_i tail heq
      rw [heq, List.length_cons] at h₁
      have h₂ := (List.dropWhile_sublist (fun c => !isBlank c) (l := tail)).length_le
      split at h
      · cases h
      · cases h
        omega
    · cases h

/-- The options of a text, as names and values, and the text without them. -/
def split (cs : List Char) : List (List Char × List Char) × List Char :=
  match cs with
  | [] => ([], [])
  | c :: cs =>
    if isBlank c then
      match _h : option? cs with
      | some (o, rest) =>
        let (os, text) := split rest
        (o :: os, text)
      | none =>
        let (os, text) := split cs
        (os, c :: text)
    else
      let (os, text) := split cs
      (os, c :: text)
termination_by cs.length
decreasing_by
  · exact Nat.lt_succ_of_le (option?_length ‹_›)
  · exact Nat.lt_succ_self _
  · exact Nat.lt_succ_self _

/-- The values of the hashes; the first other option, or the first hash without a value, is
refused. -/
def hashes : List (List Char × List Char) → Except DependencyFault (List String)
  | [] => .ok []
  | (name, value) :: os =>
    if name ≠ "hash".toList then .error (.unsupportedOption (String.ofList name))
    else if value.isEmpty then .error .hashMissing
    else (hashes os).map (String.ofList value :: ·)

end Requisite.Options
