import HostLookup.Config.Basic
import HostLookup.Text.Blank

/-!
The lines of a configuration. A line is blank, a comment, or a keyword with its words. What a line
did before it turned out to be malformed stays done.
-/
set_option autoImplicit false

namespace HostLookup

open Text

namespace Config

def done (c : Config) : Reading := ⟨c, none⟩

def broken (c : Config) : Reading := ⟨c, some .malformed⟩

/-- The end of a line that takes no more words. -/
def doneIfNone (c : Config) (more : List (List Char)) : Reading :=
  if more.isEmpty then c.done else c.broken

/-- `nameserver` and the address of a server, which is added. -/
def readNameserver (c : Config) : List (List Char) → Reading
  | [] => c.broken
  | w :: more =>
    match Server.ofChars? w with
    | none => c.broken
    | some s => (c.addServer s).doneIfNone more

/-- `domain` and a name, which becomes the search list. -/
def readDomain (c : Config) : List (List Char) → Reading
  | [] => c.broken
  | w :: more =>
    match SearchList.empty.push? (String.ofList w) with
    | none => c.broken
    | some l => { c with search := l }.doneIfNone more

/-- `search` and names, which become the search list. -/
def readSearch (c : Config) (ws : List (List Char)) : Reading :=
  match SearchList.empty.pushAll? (ws.map String.ofList) with
  | none => c.broken
  | some l => { c with search := l }.done

/-- The number after an option's colon is below this: it has 64 bits. -/
def valueBound : Nat := 18446744073709551616

/-- Sets an option; unknown ones, and those with too little or too much, are passed over. -/
def setOption (c : Config) : String → Option Nat → Config
  | "ndots", some n => { c with ndots := n }
  | "timeout", some n => { c with timeout := n * 1000 }
  | "rotate", none => { c with rotate := true }
  | "use-vc", none => { c with protocol := .tcp }
  | _, _ => c

/-- An option's name, and the number after its first colon if it has one; nothing if what is there
is no number. -/
def option? (w : List Char) : Option (String × Option Nat) :=
  match splitFirst (· == ':') w with
  | (name, none) => some (String.ofList name, none)
  | (name, some value) =>
    (signedNumeral valueBound value).map fun n => (String.ofList name, some n)

/-- `options` and options, which are set one by one. -/
def readOptions (c : Config) : List (List Char) → Reading
  | [] => c.done
  | w :: ws =>
    match option? w with
    | none => c.broken
    | some (name, value) => (c.setOption name value).readOptions ws

/-- Reads a line by its keyword. -/
def readWords (c : Config) : List (List Char) → Reading
  | [] => c.broken
  | keyword :: ws =>
    match String.ofList keyword with
    | "nameserver" => c.readNameserver ws
    | "domain" => c.readDomain ws
    | "search" => c.readSearch ws
    | "sortlist" => c.done
    | "options" => c.readOptions ws
    | _ => c.broken

/-- A line that says nothing: it is blank, or a comment from its first character on. -/
def isSilent (line : List Char) : Bool :=
  match trimEnd line with
  | [] => true
  | c :: _ => c == ';' || c == '#'

def readLine (c : Config) (line : List Char) : Reading :=
  if isSilent line then c.done else c.readWords (words line)

end Config

end HostLookup
