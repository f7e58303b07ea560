import Chopin.Lib.Spaces

/-!
# Who a message is for

The Planner acts on a message that mentions it.  `instruction` is the message without the mention
(`protocol/address.ts`): a regular expression takes out every `@chopin` that is a word of its own, the gaps
that are left are closed, and the ends are trimmed.
-/

set_option autoImplicit false

open Script

namespace Chopin.Protocol

export Script (Units)

/-- How the agent is summoned. -/
def MENTION : Units := utf16 "@chopin"

/-- `\w` -/
def isWord (unit : Nat) : Bool :=
  (0x30 ≤ unit && unit ≤ 0x39) || (0x41 ≤ unit && unit ≤ 0x5a) || (0x61 ≤ unit && unit ≤ 0x7a) || unit == 0x5f

/-- A letter of ASCII in lower case; the expression's flag compares no other letters. -/
def asciiLower (unit : Nat) : Nat := if 0x41 ≤ unit ∧ unit ≤ 0x5a then unit + 0x20 else unit

/-- `@chopin\b` matches here. -/
def mentioned (text : Units) : Bool :=
  (text.take MENTION.length).map asciiLower = MENTION && !(text[MENTION.length]?.any isWord)

/-- `[^\w@]` -/
def separates (unit : Nat) : Bool := !isWord unit && unit != 0x40

/-- `text.replace(/(^|[^\w@])@chopin\b/gi, "$1")` from one place of a text, where `start` is its beginning and
`skip` the number of units that still belong to a match. -/
def replaceMentions (start : Bool) (skip : Nat) : Units → Units
  | [] => []
  | unit :: rest =>
    match skip with
    | skip + 1 => replaceMentions false skip rest
    | 0 =>
      if start && mentioned (unit :: rest) then replaceMentions false (MENTION.length - 1) rest
      else if separates unit && mentioned rest then unit :: replaceMentions false MENTION.length rest
      else unit :: replaceMentions false 0 rest

/-- `[^\S\n]` -/
def isGap (unit : Nat) : Bool := isSpaceUnit unit && unit != 0xa

/-- The instruction, without the summons. -/
def instruction (text : Units) : Units := trimUnits (narrow isGap 0x20 .none (replaceMentions true 0 text))

example : instruction (utf16 "hi @Chopin,  see @chopin.dev x@chopin @chopina") =
    utf16 "hi , see .dev x@chopin @chopina" := by decide

end Chopin.Protocol
