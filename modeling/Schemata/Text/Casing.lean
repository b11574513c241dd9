import Schemata.Text.CaseTable

/-!
# Upper and lower case

Case conversion of whole texts by the full mappings: one character may become several, and a
capital sigma becomes the final form when a letter stands before it and none after it.
-/

namespace Schemata.Text

/-- Whether a character is in the upper-case class. -/
def isUpper (c : Char) : Bool :=
  if c.toNat < 128 then 'A' ≤ c && c ≤ 'Z' else inRuns upperClass c.toNat

/-- The lower case of a character taken by itself. -/
def lowerChar (c : Char) : List Char :=
  if c.toNat < 128 then [if 'A' ≤ c && c ≤ 'Z' then Char.ofNat (c.toNat + 32) else c]
  else if c.toNat = 0x130 then ['i', Char.ofNat 0x307]
  else
    match mapRuns lowerRuns c.toNat with
    | some n => [Char.ofNat n]
    | none => [c]

/-- The upper case of a character. -/
def upperChar (c : Char) : List Char :=
  if c.toNat < 128 then [if 'a' ≤ c && c ≤ 'z' then Char.ofNat (c.toNat - 32) else c]
  else
    match entryFor (·.1) upperSpecial c.toNat with
    | some (n, image) =>
      if n = c.toNat then image.map Char.ofNat else upperSimple
    | none => upperSimple
where
  /-- The one-to-one mapping. -/
  upperSimple : List Char :=
    match mapRuns upperRuns c.toNat with
    | some n => [Char.ofNat n]
    | none => [c]

/-- Whether the first character that is not skipped has case. -/
def meetsCased (cs : List Char) : Bool :=
  match cs.dropWhile fun c ↦ inRuns caseIgnorable c.toNat with
  | c :: _ => inRuns casedClass c.toNat
  | [] => false

/-- Lowers the characters left to right; `before` holds those already passed, last first. -/
def lowerFrom (before : List Char) : List Char → List Char
  | [] => []
  | c :: rest =>
    let image :=
      if c.toNat = 0x3a3 then
        [Char.ofNat (if meetsCased before && !meetsCased rest then 0x3c2 else 0x3c3)]
      else lowerChar c
    image ++ lowerFrom (c :: before) rest

/-- The lower case of a text. -/
def lower (s : String) : String := String.ofList (lowerFrom [] s.toList)

/-- The upper case of a text. -/
def upper (s : String) : String := String.ofList (s.toList.flatMap upperChar)

end Schemata.Text
