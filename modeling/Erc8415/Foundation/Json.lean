import Erc8415.Foundation.TextEncoding

/-! # JSON

JSON documents, the text `JSON.stringify` writes for one, and a parser for the
grammar `JSON.parse` reads. A written document is one line, and parses back to
itself.
-/

/-! ## Numbers -/

namespace JsonNumber

def isDigit (c : Char) : Bool := '0' ≤ c && c ≤ '9'

/-- The characters a number is made of. -/
def isNumberChar (c : Char) : Bool :=
  isDigit c || c == '-' || c == '+' || c == '.' || c == 'e' || c == 'E'

def isExponent : List Char → Bool
  | [] => true
  | c :: rest =>
      (c == 'e' || c == 'E') &&
        match rest with
        | '+' :: digits => !digits.isEmpty && digits.all isDigit
        | '-' :: digits => !digits.isEmpty && digits.all isDigit
        | digits => !digits.isEmpty && digits.all isDigit

def isFraction : List Char → Bool
  | '.' :: d :: rest => isDigit d && isExponent (rest.dropWhile isDigit)
  | rest => isExponent rest

def isUnsigned : List Char → Bool
  | '0' :: rest => isFraction rest
  | c :: rest => isDigit c && isFraction (rest.dropWhile isDigit)
  | [] => false

/-- The tokens of the number grammar. -/
def isToken (cs : List Char) : Bool :=
  cs.all isNumberChar &&
    match cs with
    | '-' :: rest => isUnsigned rest
    | rest => isUnsigned rest

end JsonNumber

/-- The text of a number. -/
structure JsonNumber where
  text : List Char
  valid : JsonNumber.isToken text = true

/-! ## Documents -/

/-- A JSON document. A number keeps its text. -/
inductive Json where
  | null
  | boolean (b : Bool)
  | number (n : JsonNumber)
  | string (s : String)
  | array (items : List Json)
  | object (members : List (String × Json))

namespace Json

/-- `value[name]` of an object: the last member of that name. -/
def get (value : Json) (name : String) : Option Json :=
  match value with
  | object members => members.reverse.lookup name
  | _ => none

/-! ## Writing -/

/-- A lowercase hex digit. -/
def hexDigit (n : Nat) : Char := if n < 10 then Char.ofNat (0x30 + n) else Char.ofNat (0x57 + n)

/-- A character of a string, escaped where JSON requires it. -/
def escapeChar (c : Char) : List Char :=
  if c = '"' then ['\\', '"']
  else if c = '\\' then ['\\', '\\']
  else if c = Char.ofNat 0x08 then ['\\', 'b']
  else if c = '\t' then ['\\', 't']
  else if c = '\n' then ['\\', 'n']
  else if c = Char.ofNat 0x0c then ['\\', 'f']
  else if c = '\r' then ['\\', 'r']
  else if c.toNat < 0x20 then
    ['\\', 'u', '0', '0', hexDigit (c.toNat / 16), hexDigit (c.toNat % 16)]
  else [c]

def quoted (s : String) : List Char := '"' :: (s.toList.flatMap escapeChar ++ ['"'])

mutual

/-- `JSON.stringify(value)`. -/
def stringify : Json → List Char
  | null => ['n', 'u', 'l', 'l']
  | boolean true => ['t', 'r', 'u', 'e']
  | boolean false => ['f', 'a', 'l', 's', 'e']
  | number n => n.text
  | string s => quoted s
  | array [] => ['[', ']']
  | array (item :: rest) => '[' :: (stringify item ++ stringifyItems rest)
  | object [] => ['{', '}']
  | object ((name, value) :: rest) =>
      '{' :: (quoted name ++ ':' :: (stringify value ++ stringifyMembers rest))

/-- What follows an item of an array. -/
def stringifyItems : List Json → List Char
  | [] => [']']
  | item :: rest => ',' :: (stringify item ++ stringifyItems rest)

/-- What follows a member of an object. -/
def stringifyMembers : List (String × Json) → List Char
  | [] => ['}']
  | (name, value) :: rest =>
      ',' :: (quoted name ++ ':' :: (stringify value ++ stringifyMembers rest))

end

/-! ## Parsing -/

def isSpace (c : Char) : Bool := c == ' ' || c == '\t' || c == '\n' || c == '\r'

def skipSpace (cs : List Char) : List Char := cs.dropWhile isSpace

def hexValue (c : Char) : Option Nat :=
  if '0' ≤ c ∧ c ≤ '9' then some (c.toNat - 0x30)
  else if 'a' ≤ c ∧ c ≤ 'f' then some (c.toNat - 0x57)
  else if 'A' ≤ c ∧ c ≤ 'F' then some (c.toNat - 0x37)
  else none

/-- The code unit of a four-digit escape. -/
def hexUnit (a b c d : Char) : Option Nat := do
  let a ← hexValue a
  let b ← hexValue b
  let c ← hexValue c
  let d ← hexValue d
  return a * 4096 + b * 256 + c * 16 + d

/-- The code unit of a one-letter escape. -/
def escapeUnit (c : Char) : Option Nat :=
  if c = '"' then some 0x22
  else if c = '\\' then some 0x5c
  else if c = '/' then some 0x2f
  else if c = 'b' then some 0x08
  else if c = 't' then some 0x09
  else if c = 'n' then some 0x0a
  else if c = 'f' then some 0x0c
  else if c = 'r' then some 0x0d
  else none

/-- The code units of a string whose opening quotation mark has been read. -/
def parseUnits : List Char → Option (List Nat × List Char)
  | [] => none
  | '"' :: rest => some ([], rest)
  | '\\' :: 'u' :: a :: b :: c :: d :: rest => do
      let unit ← hexUnit a b c d
      let (units, rest) ← parseUnits rest
      return (unit :: units, rest)
  | '\\' :: c :: rest => do
      let unit ← escapeUnit c
      let (units, rest) ← parseUnits rest
      return (unit :: units, rest)
  | c :: rest =>
      if c.toNat < 0x20 then none
      else do
        let (units, rest) ← parseUnits rest
        return (Text.charUnits c ++ units, rest)

def parseString (cs : List Char) : Option (String × List Char) := do
  let (units, rest) ← parseUnits cs
  return (String.ofList (Text.ofUnits units), rest)

def parseNumber (cs : List Char) : Option (Json × List Char) :=
  let token := cs.takeWhile JsonNumber.isNumberChar
  if h : JsonNumber.isToken token = true then
    some (number ⟨token, h⟩, cs.dropWhile JsonNumber.isNumberChar)
  else none

mutual

def parseValue : Nat → List Char → Option (Json × List Char)
  | 0, _ => none
  | fuel + 1, cs =>
      match skipSpace cs with
      | 'n' :: 'u' :: 'l' :: 'l' :: rest => some (null, rest)
      | 't' :: 'r' :: 'u' :: 'e' :: rest => some (boolean true, rest)
      | 'f' :: 'a' :: 'l' :: 's' :: 'e' :: rest => some (boolean false, rest)
      | '"' :: rest => do
          let (s, rest) ← parseString rest
          return (string s, rest)
      | '[' :: rest =>
          match skipSpace rest with
          | ']' :: rest => some (array [], rest)
          | rest => do
              let (items, rest) ← parseItems fuel rest
              return (array items, rest)
      | '{' :: rest =>
          match skipSpace rest with
          | '}' :: rest => some (object [], rest)
          | rest => do
              let (members, rest) ← parseMembers fuel rest
              return (object members, rest)
      | rest => parseNumber rest

/-- The items of an array, up to its closing bracket. -/
def parseItems : Nat → List Char → Option (List Json × List Char)
  | 0, _ => none
  | fuel + 1, cs => do
      let (item, rest) ← parseValue fuel cs
      match skipSpace rest with
      | ',' :: rest => do
          let (items, rest) ← parseItems fuel rest
          return (item :: items, rest)
      | ']' :: rest => return ([item], rest)
      | _ => none

/-- The members of an object, up to its closing brace. -/
def parseMembers : Nat → List Char → Option (List (String × Json) × List Char)
  | 0, _ => none
  | fuel + 1, cs =>
      match skipSpace cs with
      | '"' :: rest => do
          let (name, rest) ← parseString rest
          match skipSpace rest with
          | ':' :: rest => do
              let (value, rest) ← parseValue fuel rest
              match skipSpace rest with
              | ',' :: rest => do
                  let (members, rest) ← parseMembers fuel rest
                  return ((name, value) :: members, rest)
              | '}' :: rest => return ([(name, value)], rest)
              | _ => none
          | _ => none
      | _ => none

end

/-- `JSON.parse(text)`, or nothing where it throws. Two units of fuel a character
are enough: every value and every separator is at least one. -/
def parse (cs : List Char) : Option Json := do
  let (value, rest) ← parseValue (2 * cs.length + 1) cs
  if skipSpace rest = [] then some value else none

/-! ## Strings read back -/

theorem hexUnit_hexDigit :
    ∀ n, n < 32 → hexUnit '0' '0' (hexDigit (n / 16)) (hexDigit (n % 16)) = some n := by
  decide

/-- A character that JSON does not escape is read as itself. -/
theorem parseUnits_plain {c : Char} (hquote : c ≠ '"') (hslash : c ≠ '\\')
    (hvisible : ¬ c.toNat < 0x20) (rest : List Char) :
    parseUnits (c :: rest) =
      (parseUnits rest).map fun p => (Text.charUnits c ++ p.1, p.2) := by
  rw [parseUnits.eq_def]
  split
  next heq => cases heq
  next heq => cases heq; exact absurd rfl hquote
  next heq => cases heq; exact absurd rfl hslash
  next heq => cases heq; exact absurd rfl hslash
  next heq =>
    cases heq
    rw [if_neg hvisible]
    cases parseUnits rest <;> rfl

theorem parseUnits_escape {c : Char} {u : Nat} (hc : c ≠ 'u') (hu : escapeUnit c = some u)
    (rest : List Char) :
    parseUnits ('\\' :: c :: rest) = (parseUnits rest).map fun p => (u :: p.1, p.2) := by
  rw [parseUnits.eq_def]
  split
  next heq => cases heq
  next heq => cases heq
  next heq => cases heq; exact absurd rfl hc
  next heq =>
    cases heq
    rw [hu]
    cases parseUnits rest <;> rfl
  next hfirst heq =>
    cases heq
    exact (hfirst _ _ rfl rfl).elim

theorem parseUnits_hex {n : Nat} (hn : n < 32) (rest : List Char) :
    parseUnits ('\\' :: 'u' :: '0' :: '0' :: hexDigit (n / 16) :: hexDigit (n % 16) :: rest) =
      (parseUnits rest).map fun p => (n :: p.1, p.2) := by
  rw [parseUnits, hexUnit_hexDigit n hn]
  cases parseUnits rest <;> rfl

/-- What was written for a character reads back as its code units. -/
theorem parseUnits_escapeChar (c : Char) (rest : List Char) :
    parseUnits (escapeChar c ++ rest) =
      (parseUnits rest).map fun p => (Text.charUnits c ++ p.1, p.2) := by
  unfold escapeChar
  split
  next h => subst h; exact parseUnits_escape (by decide) rfl rest
  split
  next h => subst h; exact parseUnits_escape (by decide) rfl rest
  split
  next h => subst h; exact parseUnits_escape (by decide) rfl rest
  split
  next h => subst h; exact parseUnits_escape (by decide) rfl rest
  split
  next h => subst h; exact parseUnits_escape (by decide) rfl rest
  split
  next h => subst h; exact parseUnits_escape (by decide) rfl rest
  split
  next h => subst h; exact parseUnits_escape (by decide) rfl rest
  split
  next h =>
    have hunits : Text.charUnits c = [c.toNat] := if_pos (by omega)
    rw [hunits]
    exact parseUnits_hex (by omega) rest
  next hquote hslash _ _ _ _ _ hvisible => exact parseUnits_plain hquote hslash hvisible rest

theorem parseUnits_flatMap (cs rest : List Char) :
    parseUnits (cs.flatMap escapeChar ++ '"' :: rest) = some (Text.units cs, rest) := by
  induction cs with
  | nil => rfl
  | cons c cs ih =>
      rw [List.flatMap_cons, List.append_assoc, parseUnits_escapeChar, ih]
      rfl

/-- Every string is read back from its quoted form. -/
theorem parseString_quoted (s : String) (rest : List Char) :
    parseString (s.toList.flatMap escapeChar ++ '"' :: rest) = some (s, rest) := by
  simp only [parseString, parseUnits_flatMap, Option.bind_eq_bind, Option.bind_some,
    Text.ofUnits_units, String.ofList_toList]
  rfl

/-! ## Documents read back -/

/-- What may follow a number: nothing that could belong to it. -/
def Delimited (rest : List Char) : Prop := ∀ c ∈ rest.head?, JsonNumber.isNumberChar c = false

theorem delimited_items (items : List Json) (rest : List Char) :
    Delimited (stringifyItems items ++ rest) := by
  cases items with
  | nil => simp [Delimited, stringifyItems]; decide
  | cons item items => simp [Delimited, stringifyItems]; decide

theorem delimited_members (members : List (String × Json)) (rest : List Char) :
    Delimited (stringifyMembers members ++ rest) := by
  cases members with
  | nil => simp [Delimited, stringifyMembers]; decide
  | cons member members => simp [Delimited, stringifyMembers]; decide

theorem skipSpace_cons {c : Char} (h : isSpace c = false) (rest : List Char) :
    skipSpace (c :: rest) = c :: rest := by
  simp [skipSpace, h]

theorem parseNumber_append (n : JsonNumber) {rest : List Char} (hrest : Delimited rest) :
    parseNumber (n.text ++ rest) = some (number n, rest) := by
  have hchars : ∀ c ∈ n.text, JsonNumber.isNumberChar c = true := by
    have hvalid := n.valid
    simp only [JsonNumber.isToken, Bool.and_eq_true, List.all_eq_true] at hvalid
    exact hvalid.1
  have htake : (n.text ++ rest).takeWhile JsonNumber.isNumberChar = n.text := by
    rw [List.takeWhile_append_of_pos hchars]
    cases rest with
    | nil => simp
    | cons c rest => simp [hrest c rfl]
  have hdrop : (n.text ++ rest).dropWhile JsonNumber.isNumberChar = rest := by
    rw [List.dropWhile_append_of_pos hchars]
    cases rest with
    | nil => rfl
    | cons c rest => simp [hrest c rfl]
  simp only [parseNumber, htake, hdrop, dif_pos n.valid]

theorem isSpace_of_isNumberChar {c : Char} (hc : JsonNumber.isNumberChar c = true) :
    isSpace c = false := by
  cases hs : isSpace c with
  | false => rfl
  | true =>
      simp only [isSpace, Bool.or_eq_true, beq_iff_eq] at hs
      rcases hs with ((rfl | rfl) | rfl) | rfl <;> exact absurd hc (by decide)

theorem number_head (n : JsonNumber) :
    ∃ c cs, n.text = c :: cs ∧ JsonNumber.isNumberChar c = true := by
  have hvalid := n.valid
  cases htext : n.text with
  | nil =>
      rw [htext] at hvalid
      exact absurd hvalid (by decide)
  | cons c cs =>
      rw [htext] at hvalid
      simp only [JsonNumber.isToken, List.all_cons, Bool.and_eq_true] at hvalid
      exact ⟨c, cs, rfl, hvalid.1.1⟩

/-- A number starts with a character that no other value starts with. -/
theorem parseValue_number (n : JsonNumber) {rest : List Char} (hrest : Delimited rest)
    (fuel : Nat) : parseValue (fuel + 1) (n.text ++ rest) = some (number n, rest) := by
  rw [← parseNumber_append n hrest]
  obtain ⟨c, cs, htext, hc⟩ := number_head n
  rw [htext, List.cons_append, parseValue, skipSpace_cons (isSpace_of_isNumberChar hc)]
  split
  next heq => rw [(List.cons.inj heq).1] at hc; exact absurd hc (by decide)
  next heq => rw [(List.cons.inj heq).1] at hc; exact absurd hc (by decide)
  next heq => rw [(List.cons.inj heq).1] at hc; exact absurd hc (by decide)
  next heq => rw [(List.cons.inj heq).1] at hc; exact absurd hc (by decide)
  next heq => rw [(List.cons.inj heq).1] at hc; exact absurd hc (by decide)
  next heq => rw [(List.cons.inj heq).1] at hc; exact absurd hc (by decide)
  next => rfl

/-- A written value starts with no space and with no closing bracket. -/
theorem stringify_head (v : Json) :
    ∃ c cs, stringify v = c :: cs ∧ isSpace c = false ∧ c ≠ ']' := by
  cases v with
  | null => exact ⟨_, _, rfl, by decide, by decide⟩
  | boolean b =>
      cases b with
      | false => exact ⟨_, _, rfl, by decide, by decide⟩
      | true => exact ⟨_, _, rfl, by decide, by decide⟩
  | number n =>
      obtain ⟨c, cs, htext, hc⟩ := number_head n
      refine ⟨c, cs, htext, isSpace_of_isNumberChar hc, ?_⟩
      rintro rfl
      exact absurd hc (by decide)
  | string s => exact ⟨_, _, rfl, by decide, by decide⟩
  | array items =>
      cases items with
      | nil => exact ⟨_, _, rfl, by decide, by decide⟩
      | cons item items => exact ⟨'[', _, by rw [stringify], by decide, by decide⟩
  | object members =>
      cases members with
      | nil => exact ⟨_, _, rfl, by decide, by decide⟩
      | cons member members => exact ⟨'{', _, by rw [stringify], by decide, by decide⟩

theorem stringify_length_pos (v : Json) : 0 < (stringify v).length := by
  obtain ⟨c, cs, htext, _⟩ := stringify_head v
  rw [htext]
  exact Nat.succ_pos _

/-! The three steps of the parser, each one level above the parts it hands on. -/

theorem parseValue_array {fuel : Nat} {item : Json} {items : List Json} {rest : List Char}
    (h : parseItems fuel (stringify item ++ (stringifyItems items ++ rest)) =
      some (item :: items, rest)) :
    parseValue (fuel + 1) (stringify (array (item :: items)) ++ rest) =
      some (array (item :: items), rest) := by
  obtain ⟨c, cs, htext, hspace, hbracket⟩ := stringify_head item
  rw [htext, List.cons_append] at h
  rw [stringify, htext, List.cons_append, parseValue, skipSpace_cons (by decide)]
  simp only [List.cons_append, List.append_assoc, skipSpace_cons hspace]
  split
  next heq => exact absurd (List.cons.inj heq).1 hbracket
  next =>
    rw [h]
    rfl

theorem parseItems_cons {fuel : Nat} {item : Json} {items : List Json} {rest : List Char}
    (hvalue : parseValue fuel (stringify item ++ (stringifyItems items ++ rest)) =
      some (item, stringifyItems items ++ rest))
    (hitems : ∀ next more, items = next :: more →
      parseItems fuel (stringify next ++ (stringifyItems more ++ rest)) =
        some (next :: more, rest)) :
    parseItems (fuel + 1) (stringify item ++ (stringifyItems items ++ rest)) =
      some (item :: items, rest) := by
  rw [parseItems, hvalue]
  cases items with
  | nil => rfl
  | cons next more =>
      simp only [stringifyItems, List.cons_append, List.append_assoc, Option.bind_eq_bind,
        Option.bind_some, skipSpace_cons (show isSpace ',' = false by decide),
        hitems next more rfl]
      rfl

theorem parseValue_object {fuel : Nat} {name : String} {value : Json}
    {members : List (String × Json)} {rest : List Char}
    (h : parseMembers fuel
        (quoted name ++ ':' :: (stringify value ++ (stringifyMembers members ++ rest))) =
      some ((name, value) :: members, rest)) :
    parseValue (fuel + 1) (stringify (object ((name, value) :: members)) ++ rest) =
      some (object ((name, value) :: members), rest) := by
  simp only [quoted, List.cons_append, List.append_assoc, List.nil_append] at h
  rw [stringify, quoted, List.cons_append, parseValue, skipSpace_cons (by decide)]
  simp only [List.cons_append, List.append_assoc, List.nil_append,
    skipSpace_cons (show isSpace '"' = false by decide)]
  split
  next heq => exact absurd (List.cons.inj heq).1 (by decide)
  next =>
    rw [h]
    rfl

theorem parseMembers_cons {fuel : Nat} {name : String} {value : Json}
    {members : List (String × Json)} {rest : List Char}
    (hvalue : parseValue fuel (stringify value ++ (stringifyMembers members ++ rest)) =
      some (value, stringifyMembers members ++ rest))
    (hmembers : ∀ next nextValue more, members = (next, nextValue) :: more →
      parseMembers fuel
          (quoted next ++ ':' :: (stringify nextValue ++ (stringifyMembers more ++ rest))) =
        some ((next, nextValue) :: more, rest)) :
    parseMembers (fuel + 1)
        (quoted name ++ ':' :: (stringify value ++ (stringifyMembers members ++ rest))) =
      some ((name, value) :: members, rest) := by
  rw [parseMembers, quoted, List.cons_append, skipSpace_cons (by decide)]
  simp only [List.append_assoc, List.cons_append, List.nil_append, parseString_quoted,
    Option.bind_eq_bind, Option.bind_some, skipSpace_cons (show isSpace ':' = false by decide),
    hvalue]
  cases members with
  | nil => rfl
  | cons member more =>
      obtain ⟨next, nextValue⟩ := member
      simp only [stringifyMembers, List.cons_append, List.append_assoc,
        skipSpace_cons (show isSpace ',' = false by decide), hmembers next nextValue more rfl]
      rfl

/-- With two units of fuel a character, a written value is read back with what
follows it. By induction on the fuel: a value hands one unit less to its first
part, and each part hands one less to the next. -/
theorem parse_written (fuel : Nat) :
    (∀ v rest, Delimited rest → 2 * (stringify v).length ≤ fuel →
      parseValue fuel (stringify v ++ rest) = some (v, rest)) ∧
    (∀ item items rest, 2 * (stringify item ++ stringifyItems items).length ≤ fuel →
      parseItems fuel (stringify item ++ (stringifyItems items ++ rest)) =
        some (item :: items, rest)) ∧
    (∀ name value members rest,
      2 * (stringify value ++ stringifyMembers members).length ≤ fuel →
      parseMembers fuel
          (quoted name ++ ':' :: (stringify value ++ (stringifyMembers members ++ rest))) =
        some ((name, value) :: members, rest)) := by
  induction fuel with
  | zero =>
      refine ⟨fun v rest _ h => ?_, fun item items rest h => ?_,
        fun name value members rest h => ?_⟩
      -- No text is empty, so without fuel there is nothing to read.
      · have hpos := stringify_length_pos v
        omega
      · have hpos := stringify_length_pos item
        rw [List.length_append] at h
        omega
      · have hpos := stringify_length_pos value
        rw [List.length_append] at h
        omega
  | succ fuel ih =>
      obtain ⟨ihvalue, ihitems, ihmembers⟩ := ih
      refine ⟨fun v rest hrest h => ?_, fun item items rest h => ?_,
        fun name value members rest h => ?_⟩
      · cases v with
        | null => rfl
        | boolean b => cases b <;> rfl
        | number n => exact parseValue_number n hrest fuel
        | string s =>
            simp only [stringify, quoted, List.cons_append, List.append_assoc, List.nil_append]
            rw [parseValue, skipSpace_cons (by decide)]
            simp only [parseString_quoted]
            rfl
        | array items =>
            cases items with
            | nil => rfl
            | cons item items =>
                rw [stringify, List.length_cons] at h
                exact parseValue_array (ihitems item items rest (by omega))
        | object members =>
            cases members with
            | nil => rfl
            | cons member members =>
                obtain ⟨name, value⟩ := member
                rw [stringify, List.length_cons, List.length_append, List.length_cons] at h
                exact parseValue_object (ihmembers name value members rest (by omega))
      -- The next part is shorter by the comma before it, whose two units are spent here.
      · rw [List.length_append] at h
        refine parseItems_cons (ihvalue item _ (delimited_items items rest) ?_) ?_
        · have hpos : 0 < (stringifyItems items).length := by
            cases items <;> simp [stringifyItems]
          omega
        · rintro next more rfl
          rw [stringifyItems, List.length_cons] at h
          exact ihitems next more rest (by omega)
      · rw [List.length_append] at h
        refine parseMembers_cons (ihvalue value _ (delimited_members members rest) ?_) ?_
        · have hpos : 0 < (stringifyMembers members).length := by
            cases members <;> simp [stringifyMembers]
          omega
        · rintro next nextValue more rfl
          rw [stringifyMembers, List.length_cons, List.length_append, List.length_cons] at h
          exact ihmembers next nextValue more rest (by omega)

/-- What `stringify` wrote, `parse` reads. -/
theorem parse_stringify (v : Json) : parse (stringify v) = some v := by
  have hvalue := (parse_written (2 * (stringify v).length + 1)).1 v [] (by simp [Delimited])
    (by omega)
  rw [List.append_nil] at hvalue
  simp only [parse, hvalue, Option.bind_eq_bind, Option.bind_some]
  rfl

/-! ## The characters of a document -/

mutual

/-- The strings of a document, names included. -/
def strings : Json → List String
  | string s => [s]
  | array items => itemStrings items
  | object members => memberStrings members
  | _ => []

def itemStrings : List Json → List String
  | [] => []
  | item :: rest => strings item ++ itemStrings rest

def memberStrings : List (String × Json) → List String
  | [] => []
  | (name, value) :: rest => name :: (strings value ++ memberStrings rest)

end

/-- What a written character is: no control character, and either ASCII or one of
a string that was written. -/
structure Written (strings : List String) (c : Char) : Prop where
  visible : 0x20 ≤ c.toNat
  source : c.toNat < 0x80 ∨ ∃ s ∈ strings, c ∈ s.toList

theorem Written.mono {strings strings' : List String} {c : Char} (h : Written strings c)
    (hsub : ∀ s ∈ strings, s ∈ strings') : Written strings' c := by
  refine ⟨h.visible, ?_⟩
  rcases h.source with hascii | ⟨s, hs, hc⟩
  · exact Or.inl hascii
  · exact Or.inr ⟨s, hsub s hs, hc⟩

/-- The characters JSON's own grammar writes. -/
def isGrammarChar (c : Char) : Bool := 0x20 ≤ c.toNat && c.toNat < 0x80

theorem Written.grammar {strings : List String} {c : Char} (h : isGrammarChar c = true) :
    Written strings c := by
  simp only [isGrammarChar, Bool.and_eq_true, decide_eq_true_eq] at h
  exact ⟨h.1, Or.inl h.2⟩

theorem Written.of_all {strings : List String} {cs : List Char}
    (h : cs.all isGrammarChar = true) : ∀ c ∈ cs, Written strings c :=
  fun c hc => Written.grammar (List.all_eq_true.mp h c hc)

theorem isGrammarChar_hexDigit : ∀ n, n < 16 → isGrammarChar (hexDigit n) = true := by
  decide

theorem isGrammarChar_of_isNumberChar {c : Char} (h : JsonNumber.isNumberChar c = true) :
    isGrammarChar c = true := by
  simp only [JsonNumber.isNumberChar, JsonNumber.isDigit, Bool.or_eq_true, Bool.and_eq_true,
    decide_eq_true_eq, beq_iff_eq, Char.le_def, UInt32.le_iff_toNat_le] at h
  rcases h with ((((⟨hlow, hhigh⟩ | rfl) | rfl) | rfl) | rfl) | rfl
  · simp only [Char.reduceVal, UInt32.reduceToNat] at hlow hhigh
    have hval : c.toNat = c.val.toNat := rfl
    simp only [isGrammarChar, Bool.and_eq_true, decide_eq_true_eq]
    omega
  all_goals decide

theorem written_escapeChar {s : String} {c : Char} (hc : c ∈ s.toList) :
    ∀ d ∈ escapeChar c, Written [s] d := by
  unfold escapeChar
  split
  next => exact Written.of_all (by decide)
  split
  next => exact Written.of_all (by decide)
  split
  next => exact Written.of_all (by decide)
  split
  next => exact Written.of_all (by decide)
  split
  next => exact Written.of_all (by decide)
  split
  next => exact Written.of_all (by decide)
  split
  next => exact Written.of_all (by decide)
  split
  next =>
    apply Written.of_all
    simp only [List.all_cons, isGrammarChar_hexDigit _ (show c.toNat / 16 < 16 by omega),
      isGrammarChar_hexDigit _ (show c.toNat % 16 < 16 by omega)]
    decide
  next hvisible =>
    intro d hd
    rw [List.mem_singleton.mp hd]
    exact ⟨by omega, Or.inr ⟨s, List.mem_singleton_self s, hc⟩⟩

theorem written_quoted (s : String) : ∀ c ∈ quoted s, Written [s] c := by
  intro c hc
  rw [quoted, List.mem_cons, List.mem_append, List.mem_flatMap, List.mem_singleton] at hc
  rcases hc with rfl | ⟨d, hd, hc⟩ | rfl
  · exact Written.grammar (by decide)
  · exact written_escapeChar hd c hc
  · exact Written.grammar (by decide)

/-- The characters of an item, and of what follows it. -/
theorem Written.item {lead : Char} (hlead : isGrammarChar lead = true) {item rest : List Char}
    {itemStrings restStrings : List String} (hitem : ∀ c ∈ item, Written itemStrings c)
    (hrest : ∀ c ∈ rest, Written restStrings c) :
    ∀ c ∈ lead :: (item ++ rest), Written (itemStrings ++ restStrings) c := by
  intro c hc
  rw [List.mem_cons, List.mem_append] at hc
  rcases hc with rfl | hc | hc
  · exact Written.grammar hlead
  · exact (hitem c hc).mono fun s hs => List.mem_append_left _ hs
  · exact (hrest c hc).mono fun s hs => List.mem_append_right _ hs

/-- The characters of a member, and of what follows it. -/
theorem Written.member {lead : Char} (hlead : isGrammarChar lead = true) (name : String)
    {value rest : List Char} {valueStrings restStrings : List String}
    (hvalue : ∀ c ∈ value, Written valueStrings c)
    (hrest : ∀ c ∈ rest, Written restStrings c) :
    ∀ c ∈ lead :: (quoted name ++ ':' :: (value ++ rest)),
      Written (name :: (valueStrings ++ restStrings)) c := by
  intro c hc
  rw [List.mem_cons, List.mem_append] at hc
  rcases hc with rfl | hc | hc
  · exact Written.grammar hlead
  · exact (written_quoted name c hc).mono fun s hs => by
      rw [List.mem_singleton.mp hs]
      exact List.mem_cons_self
  · have hwritten := Written.item (by decide) hvalue hrest c hc
    exact hwritten.mono fun s hs => List.mem_cons_of_mem _ hs

mutual

theorem written_stringify : ∀ v : Json, ∀ c ∈ stringify v, Written (strings v) c
  | null => Written.of_all (by decide)
  | boolean true => Written.of_all (by decide)
  | boolean false => Written.of_all (by decide)
  | number n => by
      have hvalid := n.valid
      simp only [JsonNumber.isToken, Bool.and_eq_true, List.all_eq_true] at hvalid
      intro c hc
      exact Written.grammar (isGrammarChar_of_isNumberChar (hvalid.1 c hc))
  | string s => written_quoted s
  | array [] => Written.of_all (by decide)
  | array (item :: items) =>
      Written.item (by decide) (written_stringify item) (written_items items)
  | object [] => Written.of_all (by decide)
  | object ((name, value) :: members) =>
      Written.member (by decide) name (written_stringify value) (written_members members)

theorem written_items : ∀ items : List Json, ∀ c ∈ stringifyItems items,
    Written (itemStrings items) c
  | [] => Written.of_all (by decide)
  | item :: items =>
      Written.item (by decide) (written_stringify item) (written_items items)

theorem written_members : ∀ members : List (String × Json), ∀ c ∈ stringifyMembers members,
    Written (memberStrings members) c
  | [] => Written.of_all (by decide)
  | (name, value) :: members =>
      Written.member (by decide) name (written_stringify value) (written_members members)

end

/-- A written document is one line. -/
theorem newline_not_mem_stringify (v : Json) : '\n' ∉ stringify v :=
  fun hmem => absurd (written_stringify v _ hmem).visible (by decide)

/-- A document of ASCII strings is written in ASCII. -/
theorem isAscii_stringify {v : Json} (h : ∀ s ∈ strings v, Text.IsAscii s.toList) :
    Text.IsAscii (stringify v) := by
  intro c hc
  rcases (written_stringify v c hc).source with hascii | ⟨s, hs, hmem⟩
  · exact hascii
  · exact h s hs c hmem

end Json
