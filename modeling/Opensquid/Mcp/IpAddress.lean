import Opensquid.Lib.AddressBlock
import Opensquid.Lib.JsonParse
import Opensquid.Lib.Throws

/-!
# Addresses that a fetch may reach

A resolver answers with texts. `ip4` and `parseIpv6` read them, the latter in all forms that
`Ipv6Text` lists (`parseIpv6_iff`), and an address is blocked exactly if its number is in one of a
few blocks (`isBlockedIpv4_iff`, `isBlockedIpv6_iff`): the tests for single addresses add nothing to
the tests for blocks, and an IPv4 address in an IPv6 one is only seen in the mapped block.
-/

namespace Opensquid.WebFetch

open Opensquid.Lib

/-! ## IPv4 -/

/-- `parseInt(text, 10)` of digits. -/
def decimalValue (text : List Char) : Nat := Nat.ofDigitChars 10 text 0

/-- `\d+`. -/
def isDecimal (text : List Char) : Bool := text != [] && text.all Char.isDigit

def invalidIpv4 (address : List Char) : String :=
  "web_fetch: invalid IPv4 address " ++ String.ofList address

def ip4 (address : List Char) : Except String Nat :=
  let parts := address.splitOn '.'
  if parts.length ≠ 4 ∨ parts.all isDecimal = false then .error (invalidIpv4 address)
  else
    let values := parts.map decimalValue
    if values.any (255 < ·) then .error (invalidIpv4 address)
    else
      .ok ((values.getD 0 0 <<< 24 ||| values.getD 1 0 <<< 16 ||| values.getD 2 0 <<< 8 |||
        values.getD 3 0) % 2 ^ 32)

/-- The ranges with the texts of their bases. -/
def BLOCKED_IPV4_RANGES : List (String × Nat) :=
  [("0.0.0.0", 8), ("10.0.0.0", 8), ("100.64.0.0", 10), ("127.0.0.0", 8), ("169.254.0.0", 16),
    ("172.16.0.0", 12), ("192.168.0.0", 16), ("224.0.0.0", 4), ("240.0.0.0", 4)]

def BLOCKED_IPV4_EXACT : List String := ["169.254.169.254", "255.255.255.255"]

/-- The base of a range, which is a text that `ip4` takes. -/
def rangeBase (range : String × Nat) : Nat := (ip4 range.1.toList).toOption.getD 0

def isBlockedIpv4 (address : List Char) : Except String Bool :=
  if String.ofList address ∈ BLOCKED_IPV4_EXACT then .ok true
  else
    (ip4 address).map fun numeric => BLOCKED_IPV4_RANGES.any fun range =>
      numeric >>> (32 - range.2) == rangeBase range >>> (32 - range.2)

/-! ## IPv6 -/

def invalidIpv6 (address : List Char) : String :=
  "web_fetch: invalid IPv6 address " ++ String.ofList address

/-- `split('::')`. -/
def splitDouble : List Char → List (List Char)
  | [] => [[]]
  | [c] => [[c]]
  | c :: d :: rest =>
      if c = ':' ∧ d = ':' then [] :: splitDouble rest
      else (splitDouble (d :: rest)).modifyHead (c :: ·)

/-- `[0-9a-f]`. -/
def isLowerHex (c : Char) : Bool := c.isDigit || ('a' ≤ c && c ≤ 'f')

/-- `parseInt(text, 16)` of digits. -/
def hexValue (text : List Char) : Nat :=
  text.foldl (fun value c => 16 * value + (Json.digitOfHex c).getD 0) 0

/-- `^[0-9a-f]{1,4}$`. -/
def isGroup (text : List Char) : Bool := text != [] && text.length ≤ 4 && text.all isLowerHex

/-- The parts of a text between colons; `text` is for the message. -/
def parseParts (text : List Char) : List (List Char) → Except String (List Nat)
  | [] => .ok []
  | part :: rest =>
      if part = [] then .error (invalidIpv6 text)
      else if '.' ∈ part then
        if rest ≠ [] then .error (invalidIpv6 text)
        else (ip4 part).map fun ipv4 => [(ipv4 >>> 16) &&& 0xffff, ipv4 &&& 0xffff]
      else if isGroup part = false then .error (invalidIpv6 text)
      else (parseParts text rest).map (hexValue part :: ·)

def parseIpv6Parts (text : List Char) : Except String (List Nat) :=
  if text = [] then .ok [] else parseParts text (text.splitOn ':')

/-- The groups of the halves around `::`, with zeros between. -/
def joinHalves (address : List Char) (left right : List Nat) (double : Bool) :
    Except String (List Nat) :=
  let missing : Int := 8 - (left.length + right.length)
  if double = false then
    if missing ≠ 0 then .error (invalidIpv6 address) else .ok left
  else if missing < 1 then .error (invalidIpv6 address)
  else .ok (left ++ List.replicate missing.toNat 0 ++ right)

def toBytes (parts : List Nat) : List Nat :=
  parts.flatMap fun part => [(part >>> 8) &&& 0xff, part &&& 0xff]

def parseIpv6 (address : List Char) : Except String (List Nat) :=
  if '%' ∈ address then .error (invalidIpv6 address)
  else
    match splitDouble (address.map Char.toLower) with
    | [] => .error (invalidIpv6 address)
    | [left] => do
        let left ← parseIpv6Parts left
        return toBytes (← joinHalves address left [] false)
    | [left, right] => do
        let left ← parseIpv6Parts left
        let right ← parseIpv6Parts right
        return toBytes (← joinHalves address left right true)
    | _ :: _ :: _ :: _ => .error (invalidIpv6 address)

def METADATA_IPV6 : List Nat := (parseIpv6 "fd00:ec2::254".toList).toOption.getD []

def isIpv4Mapped (bytes : List Nat) : Bool :=
  (bytes.take 10).all (· == 0) && bytes[10]? == some 0xff && bytes[11]? == some 0xff

/-- The text of the last four bytes. -/
def mappedText (bytes : List Nat) : List Char :=
  ['.'].intercalate ((bytes.drop 12).map (Nat.toDigits 10))

def isBlockedBytes (bytes : List Nat) : Except String Bool :=
  let first := bytes.getD 0 0
  let second := bytes.getD 1 0
  if bytes.all (· == 0) then .ok true
  else if (bytes.take 15).all (· == 0) && bytes.getD 15 0 == 1 then .ok true
  else if first &&& 0xfe = 0xfc then .ok true
  else if first = 0xfe ∧ second &&& 0xc0 = 0x80 then .ok true
  else if first = 0xfe ∧ second &&& 0xc0 = 0xc0 then .ok true
  else if first = 0xff then .ok true
  else if bytes = METADATA_IPV6 then .ok true
  else if isIpv4Mapped bytes then isBlockedIpv4 (mappedText bytes)
  else .ok false

def isBlockedIpv6 (address : List Char) : Except String Bool :=
  (parseIpv6 address).bind isBlockedBytes

/-! ## What is read -/

section Ipv4

variable {text : List Char} {n : Nat}

def octets (a b c d : Nat) : Nat := ((a * 256 + b) * 256 + c) * 256 + d

/-- Four decimal numbers below 256 with dots between. -/
def Ipv4Text (text : List Char) (n : Nat) : Prop :=
  ∃ a b c d : List Char, text = ['.'].intercalate [a, b, c, d] ∧
    (∀ part ∈ [a, b, c, d], isDecimal part = true ∧ decimalValue part < 256) ∧
    n = octets (decimalValue a) (decimalValue b) (decimalValue c) (decimalValue d)

theorem or_eq_octets {a b c d : Nat} (ha : a < 256) (hb : b < 256) (hc : c < 256) (hd : d < 256) :
    (a <<< 24 ||| b <<< 16 ||| c <<< 8 ||| d) % 2 ^ 32 = octets a b c d := by
  have low : c <<< 8 ||| d = c * 256 + d := by
    rw [← Nat.shiftLeft_add_eq_or_of_lt (by omega), Nat.shiftLeft_eq]
  have middle : b <<< 16 ||| (c * 256 + d) = b * 65536 + (c * 256 + d) := by
    rw [← Nat.shiftLeft_add_eq_or_of_lt (by omega), Nat.shiftLeft_eq]
  have high : a <<< 24 ||| (b * 65536 + (c * 256 + d)) =
      a * 16777216 + (b * 65536 + (c * 256 + d)) := by
    rw [← Nat.shiftLeft_add_eq_or_of_lt (by omega), Nat.shiftLeft_eq]
  rw [Nat.or_assoc, Nat.or_assoc, low, middle, high, octets]
  omega

theorem not_mem_of_isDecimal {part : List Char} {c : Char} (decimal : isDecimal part = true)
    (other : c.isDigit = false) : c ∉ part := by
  intro held
  have digit := List.all_eq_true.mp (Bool.and_eq_true_iff.mp decimal).2 c held
  rw [other] at digit
  cases digit

theorem ip4_iff : ip4 text = .ok n ↔ Ipv4Text text n := by
  constructor
  · intro read
    unfold ip4 at read
    dsimp only at read
    split at read
    · cases read
    next form =>
      rw [not_or, not_not, Bool.not_eq_false] at form
      obtain ⟨a, b, c, d, parts⟩ := List.length_eq_four.mp form.1
      have whole : ['.'].intercalate (text.splitOn '.') = text := List.intercalate_splitOn '.'
      rw [parts] at read form whole
      split at read
      · cases read
      next small =>
        have decimal := List.all_eq_true.mp form.2
        have below : ∀ part ∈ [a, b, c, d], decimalValue part < 256 := by
          intro part held
          by_contra big
          exact small (List.any_eq_true.mpr
            ⟨decimalValue part, List.mem_map_of_mem held, decide_eq_true (Nat.not_lt.mp big)⟩)
        refine ⟨a, b, c, d, whole.symm, fun part held => ⟨decimal part held, below part held⟩, ?_⟩
        simp only [List.forall_mem_cons] at below
        rw [← Except.ok.inj read]
        exact or_eq_octets below.1 below.2.1 below.2.2.1 below.2.2.2.1
  · intro ⟨a, b, c, d, whole, each, value⟩
    have parts : text.splitOn '.' = [a, b, c, d] := by
      rw [whole, List.splitOn_intercalate '.'
        (fun part held => not_mem_of_isDecimal (each part held).1 rfl) (List.cons_ne_nil _ _)]
    have small : ([a, b, c, d].map decimalValue).any (255 < ·) = false := by
      rw [List.any_eq_false]
      intro value listed
      obtain ⟨part, held, rfl⟩ := List.mem_map.mp listed
      have below := (each part held).2
      rw [decide_eq_true_eq]
      omega
    simp only [List.forall_mem_cons] at each
    unfold ip4
    dsimp only
    rw [parts, if_neg (by simp [each]), small, value]
    exact congrArg Except.ok
      (or_eq_octets each.1.2 each.2.1.2 each.2.2.1.2 each.2.2.2.1.2)

/-! ### The blocked blocks -/

def blockedIpv4 : List (AddressBlock 32) :=
  [⟨octets 0 0 0 0, 8, by decide, by decide⟩, ⟨octets 10 0 0 0, 8, by decide, by decide⟩,
    ⟨octets 100 64 0 0, 10, by decide, by decide⟩, ⟨octets 127 0 0 0, 8, by decide, by decide⟩,
    ⟨octets 169 254 0 0, 16, by decide, by decide⟩, ⟨octets 172 16 0 0, 12, by decide, by decide⟩,
    ⟨octets 192 168 0 0, 16, by decide, by decide⟩, ⟨octets 224 0 0 0, 4, by decide, by decide⟩,
    ⟨octets 240 0 0 0, 4, by decide, by decide⟩]

def BlockedIpv4 (n : Nat) : Prop := ∃ block ∈ blockedIpv4, block.Contains n

instance (n : Nat) : Decidable (BlockedIpv4 n) := inferInstanceAs (Decidable (∃ _ ∈ _, _))

theorem rangeBase_blocked :
    BLOCKED_IPV4_RANGES.map (fun range => (rangeBase range, range.2)) =
      blockedIpv4.map (fun block => (block.base, block.bits)) := by
  decide +kernel

theorem any_range_iff (n : Nat) :
    BLOCKED_IPV4_RANGES.any
      (fun range => n >>> (32 - range.2) == rangeBase range >>> (32 - range.2)) =
      decide (BlockedIpv4 n) := by
  have listed : BLOCKED_IPV4_RANGES.any
      (fun range => n >>> (32 - range.2) == rangeBase range >>> (32 - range.2)) =
      (BLOCKED_IPV4_RANGES.map fun range => (rangeBase range, range.2)).any
        fun range => n >>> (32 - range.2) == range.1 >>> (32 - range.2) := by
    rw [List.any_map]
    rfl
  rw [listed, rangeBase_blocked, List.any_map, Bool.eq_iff_iff, List.any_eq_true,
    decide_eq_true_eq]
  refine exists_congr fun block => and_congr_right fun _ => ?_
  rw [Function.comp_apply, beq_iff_eq, block.contains_iff_shift]

/-- The single addresses lie in the ranges. -/
theorem exact_blocked {text : List Char} (exact : String.ofList text ∈ BLOCKED_IPV4_EXACT)
    (reads : Ipv4Text text n) : BlockedIpv4 n := by
  have read := ip4_iff.mpr reads
  rcases List.mem_pair.mp exact with same | same
  · have chars : text = "169.254.169.254".toList := by rw [← same, String.toList_ofList]
    rw [chars, show ip4 "169.254.169.254".toList = .ok (octets 169 254 169 254) by decide +kernel]
      at read
    rw [← Except.ok.inj read]
    decide
  · have chars : text = "255.255.255.255".toList := by rw [← same, String.toList_ofList]
    rw [chars, show ip4 "255.255.255.255".toList = .ok (octets 255 255 255 255) by decide +kernel]
      at read
    rw [← Except.ok.inj read]
    decide

theorem isBlockedIpv4_eq (reads : Ipv4Text text n) :
    isBlockedIpv4 text = .ok (decide (BlockedIpv4 n)) := by
  unfold isBlockedIpv4
  split
  next exact => rw [decide_eq_true (exact_blocked exact reads)]
  next =>
    rw [ip4_iff.mpr reads, ← any_range_iff]
    rfl

end Ipv4

section Ipv6

variable {text rest : List Char} {groups : List Nat}

/-- Hexadecimal groups with colons between, the last two of them in IPv4 form perhaps. -/
inductive GroupsText : List Char → List Nat → Prop
  | group {text : List Char} (hex : isGroup text = true) : GroupsText text [hexValue text]
  | quad {text : List Char} {n : Nat} (quad : Ipv4Text text n) :
      GroupsText text [n / 65536, n % 65536]
  | cons {text rest : List Char} {groups : List Nat} (hex : isGroup text = true)
      (more : GroupsText rest groups) : GroupsText (text ++ ':' :: rest) (hexValue text :: groups)

/-- What may stand at a side of a double colon. -/
def HalfText (text : List Char) (groups : List Nat) : Prop :=
  (text = [] ∧ groups = []) ∨ GroupsText text groups

/-- Eight groups, or fewer around a double colon, which stands for zeros. -/
def Ipv6Text (text : List Char) (groups : List Nat) : Prop :=
  (GroupsText text groups ∧ groups.length = 8) ∨
    ∃ l r left right, text = l ++ ':' :: ':' :: r ∧ HalfText l left ∧ HalfText r right ∧
      left.length + right.length < 8 ∧
      groups = left ++ List.replicate (8 - (left.length + right.length)) 0 ++ right

/-! ### The characters -/

theorem isGroup_spec (hex : isGroup text = true) :
    text ≠ [] ∧ ∀ c ∈ text, isLowerHex c = true := by
  unfold isGroup at hex
  simp only [Bool.and_eq_true, bne_iff_ne, List.all_eq_true] at hex
  exact ⟨hex.1.1, hex.2⟩

theorem not_mem_of_isGroup {c : Char} (hex : isGroup text = true) (other : isLowerHex c = false) :
    c ∉ text := by
  intro held
  have digit := (isGroup_spec hex).2 c held
  rw [other] at digit
  cases digit

theorem Ipv4Text.chars {n : Nat} (quad : Ipv4Text text n) :
    ∀ c ∈ text, c.isDigit = true ∨ c = '.' := by
  obtain ⟨a, b, c, d, rfl, each, -⟩ := quad
  intro x held
  have inside : ∀ part ∈ [a, b, c, d], x ∈ part → x.isDigit = true := fun part listed mem =>
    List.all_eq_true.mp (Bool.and_eq_true_iff.mp (each part listed).1).2 x mem
  simp only [List.intercalate_cons_cons, List.intercalate_singleton, List.mem_append,
    List.mem_singleton] at held
  simp only [List.forall_mem_cons] at inside
  tauto

theorem Ipv4Text.dot_mem {n : Nat} (quad : Ipv4Text text n) : '.' ∈ text := by
  obtain ⟨a, b, c, d, rfl, -, -⟩ := quad
  simp [List.intercalate_cons_cons]

theorem GroupsText.chars (reads : GroupsText text groups) :
    ∀ c ∈ text, isLowerHex c = true ∨ c = ':' ∨ c = '.' := by
  have digit {c : Char} (digit : c.isDigit = true) : isLowerHex c = true := by
    rw [isLowerHex, digit, Bool.true_or]
  induction reads with
  | group hex => exact fun c held => .inl ((isGroup_spec hex).2 c held)
  | quad quad =>
      intro c held
      rcases quad.chars c held with decimal | dot
      · exact .inl (digit decimal)
      · exact .inr (.inr dot)
  | cons hex more ih =>
      intro c held
      rcases List.mem_append.mp held with held | held
      · exact .inl ((isGroup_spec hex).2 c held)
      · rcases List.mem_cons.mp held with colon | held
        · exact .inr (.inl colon)
        · exact ih c held

theorem GroupsText.head (reads : GroupsText text groups) :
    ∃ c cs, text = c :: cs ∧ c ≠ ':' := by
  have plain {part : List Char} (solid : part ≠ []) (free : ':' ∉ part) (rest : List Char) :
      ∃ c cs, part ++ rest = c :: cs ∧ c ≠ ':' := by
    obtain ⟨c, cs, rfl⟩ := List.exists_cons_of_ne_nil solid
    exact ⟨c, cs ++ rest, rfl, fun colon => free (colon ▸ List.mem_cons_self)⟩
  cases reads with
  | group hex => simpa using plain (isGroup_spec hex).1 (not_mem_of_isGroup hex rfl) []
  | quad quad =>
      have free : ':' ∉ text := fun held => by
        rcases quad.chars _ held with digit | dot
        · cases digit
        · cases dot
      simpa using plain (List.ne_nil_of_mem quad.dot_mem) free []
  | cons hex more => exact plain (isGroup_spec hex).1 (not_mem_of_isGroup hex rfl) _

/-! ### Parts -/

theorem and_mask {n : Nat} (small : n < 2 ^ 32) :
    [(n >>> 16) &&& 0xffff, n &&& 0xffff] = [n / 65536, n % 65536] := by
  have high : n / 2 ^ 16 < 2 ^ 16 := Nat.div_lt_of_lt_mul small
  rw [Nat.shiftRight_eq_div_pow, show (0xffff : Nat) = 2 ^ 16 - 1 from rfl,
    Nat.and_two_pow_sub_one_eq_mod, Nat.and_two_pow_sub_one_eq_mod, Nat.mod_eq_of_lt high]
  rfl

theorem Ipv4Text.lt {n : Nat} (quad : Ipv4Text text n) : n < 2 ^ 32 := by
  obtain ⟨a, b, c, d, -, each, rfl⟩ := quad
  simp only [List.forall_mem_cons] at each
  unfold octets
  omega

theorem groupsText_of_parseParts {parts : List (List Char)} (some_part : parts ≠ [])
    (read : parseParts text parts = .ok groups) :
    GroupsText ([':'].intercalate parts) groups := by
  induction parts generalizing groups with
  | nil => exact absurd rfl some_part
  | cons part rest ih =>
      unfold parseParts at read
      split at read
      · cases read
      split at read
      · split at read
        · cases read
        next last =>
          rw [not_not] at last
          subst last
          rcases value : ip4 part with error | n
          · rw [value] at read
            cases read
          · rw [value] at read
            have quad := ip4_iff.mp value
            have same := (Except.ok.inj read).symm.trans (and_mask quad.lt)
            rw [same, List.intercalate_singleton]
            exact .quad quad
      · split at read
        · cases read
        next hex =>
          rw [Bool.not_eq_false] at hex
          rcases more : parseParts text rest with error | others
          · rw [more] at read
            cases read
          · rw [more] at read
            rw [← Except.ok.inj read]
            cases rest with
            | nil =>
                rw [← Except.ok.inj more, List.intercalate_singleton]
                exact .group hex
            | cons next rest =>
                rw [List.intercalate_cons_cons, List.append_assoc]
                exact .cons hex (ih (List.cons_ne_nil _ _) more)

theorem GroupsText.parseParts_eq (reads : GroupsText rest groups) :
    parseParts text (rest.splitOn ':') = .ok groups := by
  induction reads with
  | group hex =>
      rw [List.splitOn_eq_singleton (not_mem_of_isGroup hex rfl), parseParts,
        if_neg (isGroup_spec hex).1, if_neg (not_mem_of_isGroup hex rfl), hex]
      rfl
  | @quad part n quad =>
      have free : ':' ∉ part := fun held => by
        rcases quad.chars _ held with digit | dot
        · cases digit
        · cases dot
      rw [List.splitOn_eq_singleton free, parseParts, if_neg (List.ne_nil_of_mem quad.dot_mem),
        if_pos quad.dot_mem, if_neg (not_not.mpr rfl), ip4_iff.mpr quad]
      exact congrArg Except.ok (and_mask quad.lt)
  | cons hex more ih =>
      rw [List.splitOn_append_cons_self_of_not_mem (not_mem_of_isGroup hex rfl), parseParts,
        if_neg (isGroup_spec hex).1, if_neg (not_mem_of_isGroup hex rfl), hex, ih]
      rfl

theorem parseIpv6Parts_iff : parseIpv6Parts text = .ok groups ↔ HalfText text groups := by
  unfold parseIpv6Parts HalfText
  constructor
  · intro read
    split at read
    next empty => exact .inl ⟨empty, (Except.ok.inj read).symm⟩
    · have reads := groupsText_of_parseParts (List.splitOn_ne_nil _ _) read
      rw [List.intercalate_splitOn] at reads
      exact .inr reads
  · intro half
    rcases half with ⟨rfl, rfl⟩ | reads
    · rfl
    · obtain ⟨c, cs, rfl, -⟩ := reads.head
      rw [if_neg (List.cons_ne_nil _ _)]
      exact reads.parseParts_eq

/-! ### The double colon -/

theorem splitDouble_ne_nil (text : List Char) : splitDouble text ≠ [] := by
  fun_induction splitDouble text with
  | case1 => exact List.cons_ne_nil _ _
  | case2 c => exact List.cons_ne_nil _ _
  | case3 c d rest colons ih => exact List.cons_ne_nil _ _
  | case4 c d rest single ih =>
      obtain ⟨first, others, split⟩ := List.exists_cons_of_ne_nil ih
      rw [split]
      exact List.cons_ne_nil _ _

theorem intercalate_splitDouble (text : List Char) :
    [':', ':'].intercalate (splitDouble text) = text := by
  fun_induction splitDouble text with
  | case1 => rfl
  | case2 c => rfl
  | case3 c d rest colons ih =>
      obtain ⟨first, others, split⟩ := List.exists_cons_of_ne_nil (splitDouble_ne_nil rest)
      rw [colons.1, colons.2, split, List.intercalate_cons_cons, ← split, ih]
      rfl
  | case4 c d rest single ih =>
      obtain ⟨first, others, split⟩ := List.exists_cons_of_ne_nil (splitDouble_ne_nil (d :: rest))
      rw [split] at ih ⊢
      rw [← ih]
      cases others with
      | nil => rfl
      | cons next others =>
          rw [List.modifyHead_cons, List.intercalate_cons_cons, List.intercalate_cons_cons]
          rfl

theorem splitDouble_cons (c : Char) (text : List Char)
    (single : c ≠ ':' ∨ ∀ d ∈ text.head?, d ≠ ':') :
    splitDouble (c :: text) = (splitDouble text).modifyHead (c :: ·) := by
  cases text with
  | nil => rfl
  | cons d rest =>
      rw [splitDouble, if_neg]
      intro colons
      rcases single with other | other
      · exact other colons.1
      · exact other d rfl colons.2

theorem splitDouble_append {part : List Char} (free : ':' ∉ part) (text : List Char) :
    splitDouble (part ++ text) = (splitDouble text).modifyHead (part ++ ·) := by
  induction part with
  | nil =>
      rw [List.nil_append]
      cases splitDouble text <;> rfl
  | cons c part ih =>
      rw [List.mem_cons, not_or] at free
      rw [List.cons_append, splitDouble_cons c _ (.inl (Ne.symm free.1)), ih free.2]
      cases splitDouble text with
      | nil => rfl
      | cons first others => rfl

theorem GroupsText.splitDouble_append (reads : GroupsText rest groups) (text : List Char) :
    splitDouble (rest ++ text) = (splitDouble text).modifyHead (rest ++ ·) := by
  induction reads with
  | group hex => exact WebFetch.splitDouble_append (not_mem_of_isGroup hex rfl) text
  | quad quad =>
      refine WebFetch.splitDouble_append (fun held => ?_) text
      rcases quad.chars _ held with digit | dot
      · cases digit
      · cases dot
  | cons hex more ih =>
      obtain ⟨c, cs, rfl, other⟩ := more.head
      rw [List.append_assoc, WebFetch.splitDouble_append (not_mem_of_isGroup hex rfl),
        List.cons_append, splitDouble_cons ':' _ (.inr fun d first => by
          rw [← Option.some.inj (Option.mem_def.mp first)]
          exact other), ih]
      cases splitDouble text with
      | nil => rfl
      | cons first others => simp

theorem HalfText.splitDouble_append (half : HalfText rest groups) (text : List Char) :
    splitDouble (rest ++ text) = (splitDouble text).modifyHead (rest ++ ·) := by
  rcases half with ⟨rfl, -⟩ | reads
  · exact WebFetch.splitDouble_append List.not_mem_nil text
  · exact reads.splitDouble_append text

theorem HalfText.splitDouble_eq (half : HalfText rest groups) : splitDouble rest = [rest] := by
  have split := half.splitDouble_append []
  rwa [List.append_nil, splitDouble, List.modifyHead_cons, List.append_nil] at split

theorem Ipv6Text.free {text : List Char} (reads : Ipv6Text text groups) : '%' ∉ text := by
  have half {part : List Char} {groups : List Nat} (half : HalfText part groups) : '%' ∉ part := by
    rcases half with ⟨rfl, -⟩ | reads
    · exact List.not_mem_nil
    · intro held
      rcases reads.chars _ held with hex | colon | dot
      · cases hex
      · cases colon
      · cases dot
  rcases reads with ⟨reads, -⟩ | ⟨l, r, left, right, rfl, leftHalf, rightHalf, -⟩
  · exact half (.inr reads)
  · simp [half leftHalf, half rightHalf]

theorem joinHalves_single {address : List Char} {left : List Nat} :
    joinHalves address left [] false = .ok groups ↔ left.length = 8 ∧ groups = left := by
  unfold joinHalves
  dsimp only
  rw [if_pos rfl, List.length_nil]
  split
  next uneven =>
    refine ⟨(nomatch ·), fun whole => ?_⟩
    omega
  next even =>
    rw [Except.ok.injEq, eq_comm]
    refine ⟨fun same => ⟨by omega, same⟩, fun whole => whole.2⟩

theorem joinHalves_double {address : List Char} {left right : List Nat} :
    joinHalves address left right true = .ok groups ↔ left.length + right.length < 8 ∧
      groups = left ++ List.replicate (8 - (left.length + right.length)) 0 ++ right := by
  unfold joinHalves
  dsimp only
  rw [if_neg Bool.noConfusion]
  split
  next full =>
    refine ⟨(nomatch ·), fun whole => ?_⟩
    omega
  next room =>
    have zeros : (8 - ((left.length : Int) + right.length)).toNat =
        8 - (left.length + right.length) := by omega
    rw [Except.ok.injEq, eq_comm, zeros]
    refine ⟨fun same => ⟨by omega, same⟩, fun whole => whole.2⟩

/-- What is read are the texts of eight groups, in upper or lower case. -/
theorem parseIpv6_iff {bytes : List Nat} :
    parseIpv6 text = .ok bytes ↔
      ∃ groups, Ipv6Text (text.map Char.toLower) groups ∧ bytes = toBytes groups := by
  unfold parseIpv6
  constructor
  · intro read
    split at read
    · cases read
    have whole := intercalate_splitDouble (text.map Char.toLower)
    generalize splitDouble (text.map Char.toLower) = halves at read whole
    rcases halves with - | ⟨l, - | ⟨r, - | ⟨more, others⟩⟩⟩
    · cases read
    · obtain ⟨left, leftRead, rest⟩ := bind_ok_iff.mp read
      obtain ⟨groups, joined, built⟩ := bind_ok_iff.mp rest
      obtain ⟨eight, rfl⟩ := joinHalves_single.mp joined
      rw [List.intercalate_singleton] at whole
      rcases parseIpv6Parts_iff.mp leftRead with ⟨-, rfl⟩ | reads
      · cases eight
      · exact ⟨groups, .inl ⟨whole ▸ reads, eight⟩, (Except.ok.inj built).symm⟩
    · obtain ⟨left, leftRead, rest⟩ := bind_ok_iff.mp read
      obtain ⟨right, rightRead, rest'⟩ := bind_ok_iff.mp rest
      obtain ⟨groups, joined, built⟩ := bind_ok_iff.mp rest'
      obtain ⟨room, same⟩ := joinHalves_double.mp joined
      refine ⟨groups, .inr ⟨l, r, left, right, ?_, parseIpv6Parts_iff.mp leftRead,
        parseIpv6Parts_iff.mp rightRead, room, same⟩, (Except.ok.inj built).symm⟩
      rw [← whole, List.intercalate_cons_cons, List.intercalate_singleton, List.append_assoc]
      rfl
    · cases read
  · intro ⟨groups, reads, same⟩
    have free : '%' ∉ text := fun held => reads.free (List.mem_map_of_mem held)
    rw [if_neg free, same]
    rcases reads with ⟨reads, eight⟩ | ⟨l, r, left, right, split, leftHalf, rightHalf, room, rfl⟩
    · have half : HalfText (text.map Char.toLower) groups := .inr reads
      rw [half.splitDouble_eq]
      dsimp only
      rw [parseIpv6Parts_iff.mpr half]
      show (joinHalves text groups [] false).bind _ = _
      rw [joinHalves_single.mpr ⟨eight, rfl⟩]
      rfl
    · rw [split, leftHalf.splitDouble_append, splitDouble, if_pos ⟨rfl, rfl⟩,
        rightHalf.splitDouble_eq, List.modifyHead_cons, List.append_nil]
      dsimp only
      rw [parseIpv6Parts_iff.mpr leftHalf, parseIpv6Parts_iff.mpr rightHalf]
      show (joinHalves text left right true).bind _ = _
      rw [joinHalves_double.mpr ⟨room, rfl⟩]
      rfl

end Ipv6

/-! ## What is blocked -/

section Blocked

variable {text : List Char} {groups : List Nat}

/-- The number of an address of eight groups. -/
def ipv6Value (groups : List Nat) : Nat := groups.foldl (fun value group => value * 65536 + group) 0

def blockedIpv6 : List (AddressBlock 128) :=
  [⟨0, 128, by decide, by decide⟩, ⟨1, 128, by decide, by decide⟩,
    ⟨0xfc * 2 ^ 120, 7, by decide, by decide⟩, ⟨0xfe80 * 2 ^ 112, 10, by decide, by decide⟩,
    ⟨0xfec0 * 2 ^ 112, 10, by decide, by decide⟩, ⟨0xff * 2 ^ 120, 8, by decide, by decide⟩]

/-- The addresses that stand for IPv4 ones. -/
def mappedBlock : AddressBlock 128 := ⟨0xffff * 2 ^ 32, 96, by decide, by decide⟩

def BlockedIpv6 (n : Nat) : Prop :=
  (∃ block ∈ blockedIpv6, block.Contains n) ∨ (mappedBlock.Contains n ∧ BlockedIpv4 (n % 2 ^ 32))

instance (n : Nat) : Decidable (BlockedIpv6 n) :=
  inferInstanceAs (Decidable ((∃ _ ∈ _, _) ∨ (_ ∧ _)))

theorem toBytes_cons {g : Nat} (small : g < 65536) (groups : List Nat) :
    toBytes (g :: groups) = g / 256 :: g % 256 :: toBytes groups := by
  have high : g / 2 ^ 8 < 2 ^ 8 := by omega
  rw [toBytes, List.flatMap_cons, Nat.shiftRight_eq_div_pow,
    show (0xff : Nat) = 2 ^ 8 - 1 from rfl, Nat.and_two_pow_sub_one_eq_mod,
    Nat.and_two_pow_sub_one_eq_mod, Nat.mod_eq_of_lt high]
  rfl

theorem and_unique_local : ∀ b < 256, b &&& 0xfe = 0xfc ↔ b / 2 = 126 := by decide +kernel

theorem and_link_local : ∀ b < 256, b &&& 0xc0 = 0x80 ↔ b / 64 = 2 := by decide +kernel

theorem and_site_local : ∀ b < 256, b &&& 0xc0 = 0xc0 ↔ b / 64 = 3 := by decide +kernel

theorem metadata_eq : METADATA_IPV6 =
    [0xfd, 0, 0x0e, 0xc2, 0, 0, 0, 0, 0, 0, 0, 0, 0, 0, 0x02, 0x54] := by
  decide +kernel

theorem decimal_toDigits (b : Nat) :
    isDecimal (Nat.toDigits 10 b) = true ∧ decimalValue (Nat.toDigits 10 b) = b := by
  refine ⟨?_, Nat.ofDigitChars_ten_toDigits⟩
  rw [isDecimal, Bool.and_eq_true, bne_iff_ne, List.all_eq_true]
  exact ⟨Nat.toDigits_ne_nil,
    fun c held => Nat.isDigit_of_mem_toDigits (by decide) (by decide) held⟩

theorem mappedText_reads {a b c d : Nat} (ha : a < 256) (hb : b < 256) (hc : c < 256)
    (hd : d < 256) {bytes : List Nat} (last : bytes.drop 12 = [a, b, c, d]) :
    Ipv4Text (mappedText bytes) (octets a b c d) := by
  refine ⟨Nat.toDigits 10 a, Nat.toDigits 10 b, Nat.toDigits 10 c, Nat.toDigits 10 d, ?_, ?_, ?_⟩
  · rw [mappedText, last]
    rfl
  · simp only [List.forall_mem_cons]
    simp [decimal_toDigits, *]
  · simp only [decimal_toDigits]

theorem blockedIpv6_iff (n : Nat) : (∃ block ∈ blockedIpv6, block.Contains n) ↔
    n ≤ 1 ∨ n / 2 ^ 121 = 126 ∨ n / 2 ^ 118 = 1018 ∨ n / 2 ^ 118 = 1019 ∨ n / 2 ^ 120 = 255 := by
  simp only [blockedIpv6, List.mem_cons, List.not_mem_nil, or_false, exists_eq_or_imp,
    exists_eq_left, AddressBlock.Contains, AddressBlock.size]
  omega

theorem isBlockedBytes_eq {a b c d e f g h : Nat}
    (small : ∀ group ∈ [a, b, c, d, e, f, g, h], group < 65536) :
    isBlockedBytes (toBytes [a, b, c, d, e, f, g, h]) =
      .ok (decide (BlockedIpv6 (ipv6Value [a, b, c, d, e, f, g, h]))) := by
  simp only [List.forall_mem_cons] at small
  obtain ⟨ha, hb, hc, hd, he, hf, hg, hh, -⟩ := small
  rw [toBytes_cons ha, toBytes_cons hb, toBytes_cons hc, toBytes_cons hd, toBytes_cons he,
    toBytes_cons hf, toBytes_cons hg, toBytes_cons hh, show toBytes [] = [] from rfl]
  have value : ipv6Value [a, b, c, d, e, f, g, h] =
      a * 2 ^ 112 + (b * 2 ^ 96 + c * 2 ^ 80 + d * 2 ^ 64 + e * 2 ^ 48 + f * 2 ^ 32 + g * 2 ^ 16 +
        h) := by
    simp only [ipv6Value, List.foldl]
    omega
  have low : ipv6Value [a, b, c, d, e, f, g, h] % 2 ^ 32 =
      octets (g / 256) (g % 256) (h / 256) (h % 256) := by
    rw [value, octets]
    omega
  generalize ipv6Value [a, b, c, d, e, f, g, h] = n at value low
  have blocked : (n ≤ 1 ∨ n / 2 ^ 121 = 126 ∨ n / 2 ^ 118 = 1018 ∨ n / 2 ^ 118 = 1019 ∨
      n / 2 ^ 120 = 255) → (.ok true : Except String Bool) = .ok (decide (BlockedIpv6 n)) :=
    fun inside => by rw [decide_eq_true (.inl ((blockedIpv6_iff n).mpr inside))]
  unfold isBlockedBytes
  dsimp only [List.getD_cons_zero, List.getD_cons_succ]
  split
  next zero =>
    simp at zero
    exact blocked (.inl (by omega))
  split
  next _ one =>
    simp at one
    exact blocked (.inl (by omega))
  split
  next _ _ unique =>
    have := (and_unique_local (a / 256) (by omega)).mp unique
    exact blocked (.inr (.inl (by omega)))
  split
  next _ _ _ link =>
    have first : a / 256 = 0xfe := link.1
    have second := (and_link_local (a % 256) (by omega)).mp link.2
    exact blocked (.inr (.inr (.inl (by omega))))
  split
  next _ _ _ _ site =>
    have first : a / 256 = 0xfe := site.1
    have second := (and_site_local (a % 256) (by omega)).mp site.2
    exact blocked (.inr (.inr (.inr (.inl (by omega)))))
  split
  next _ _ _ _ _ multicast =>
    have first : a / 256 = 0xff := multicast
    exact blocked (.inr (.inr (.inr (.inr (by omega)))))
  split
  next _ _ unique _ _ _ metadata =>
    rw [metadata_eq] at metadata
    have first : a / 256 = 0xfd := (List.cons.inj metadata).1
    exact absurd ((and_unique_local (a / 256) (by omega)).mpr (by omega)) unique
  next zero one unique link site multicast _ =>
    have outside : ¬ ∃ block ∈ blockedIpv6, block.Contains n := by
      rw [blockedIpv6_iff]
      rintro (few | unique' | link' | site' | multicast')
      · obtain ⟨rfl, rfl, rfl, rfl, rfl, rfl, rfl⟩ :
            a = 0 ∧ b = 0 ∧ c = 0 ∧ d = 0 ∧ e = 0 ∧ f = 0 ∧ g = 0 := by omega
        obtain rfl | rfl : h = 0 ∨ h = 1 := by omega
        · exact zero rfl
        · exact one rfl
      · exact unique ((and_unique_local (a / 256) (by omega)).mpr (by omega))
      · exact link ⟨show a / 256 = 0xfe by omega,
          (and_link_local (a % 256) (by omega)).mpr (by omega)⟩
      · exact site ⟨show a / 256 = 0xfe by omega,
          (and_site_local (a % 256) (by omega)).mpr (by omega)⟩
      · exact multicast (show a / 256 = 0xff by omega)
    split
    next mapped =>
      have within : mappedBlock.Contains n := by
        simp [isIpv4Mapped] at mapped
        simp only [AddressBlock.Contains, AddressBlock.size, mappedBlock]
        omega
      rw [isBlockedIpv4_eq
        (mappedText_reads (by omega) (by omega) (by omega) (by omega) rfl), ← low]
      simp [BlockedIpv6, outside, within]
    next mapped =>
      have apart : ¬ mappedBlock.Contains n := by
        simp only [AddressBlock.Contains, AddressBlock.size, mappedBlock]
        intro within
        obtain ⟨rfl, rfl, rfl, rfl, rfl, rfl⟩ :
            a = 0 ∧ b = 0 ∧ c = 0 ∧ d = 0 ∧ e = 0 ∧ f = 0xffff := by omega
        exact mapped rfl
      simp [BlockedIpv6, outside, apart]

theorem digit_lt {c : Char} {x : Nat} (digit : Json.digitOfHex c = some x) : x < 16 := by
  have le_nat {a b : Char} (le : a ≤ b) : a.toNat ≤ b.toNat := UInt32.le_iff_toNat_le.mp le
  unfold Json.digitOfHex at digit
  split at digit
  next decimal =>
    have last := le_nat (of_decide_eq_true (Bool.and_eq_true_iff.mp decimal).2)
    have same := Option.some.inj digit
    have nine : ('9' : Char).toNat = 57 := rfl
    omega
  split at digit
  next lower =>
    have last := le_nat lower.2
    have same := Option.some.inj digit
    have f : ('f' : Char).toNat = 102 := rfl
    omega
  split at digit
  next upper =>
    have last := le_nat upper.2
    have same := Option.some.inj digit
    have f : ('F' : Char).toNat = 70 := rfl
    omega
  · cases digit

theorem foldl_hex_lt (init : Nat) (text : List Char) :
    text.foldl (fun value c => 16 * value + (Json.digitOfHex c).getD 0) init <
      (init + 1) * 16 ^ text.length := by
  induction text generalizing init with
  | nil => simp
  | cons c text ih =>
      have digit : (Json.digitOfHex c).getD 0 < 16 := by
        rcases read : Json.digitOfHex c with - | x
        · decide
        · exact digit_lt read
      refine Nat.lt_of_lt_of_le (ih _) ?_
      rw [List.length_cons, Nat.pow_succ, Nat.mul_comm (16 ^ _), ← Nat.mul_assoc]
      refine Nat.mul_le_mul_right _ ?_
      show 16 * init + _ + 1 ≤ (init + 1) * 16
      omega

theorem hexValue_lt (hex : isGroup text = true) : hexValue text < 65536 := by
  unfold isGroup at hex
  simp only [Bool.and_eq_true, decide_eq_true_eq] at hex
  refine Nat.lt_of_lt_of_le (foldl_hex_lt 0 text) ?_
  calc (0 + 1) * 16 ^ text.length = 16 ^ text.length := by rw [Nat.zero_add, Nat.one_mul]
    _ ≤ 16 ^ 4 := Nat.pow_le_pow_right (by decide) hex.1.2

theorem GroupsText.small (reads : GroupsText text groups) : ∀ group ∈ groups, group < 65536 := by
  induction reads with
  | group hex => exact List.forall_mem_singleton.mpr (hexValue_lt hex)
  | quad quad =>
      have below := quad.lt
      simp only [List.forall_mem_cons]
      exact ⟨by omega, by omega, List.forall_mem_nil _⟩
  | cons hex more ih => exact List.forall_mem_cons.mpr ⟨hexValue_lt hex, ih⟩

theorem Ipv6Text.eight (reads : Ipv6Text text groups) : groups.length = 8 := by
  rcases reads with ⟨-, eight⟩ | ⟨l, r, left, right, -, -, -, room, rfl⟩
  · exact eight
  · simp only [List.length_append, List.length_replicate]
    omega

theorem Ipv6Text.small (reads : Ipv6Text text groups) : ∀ group ∈ groups, group < 65536 := by
  have half {part : List Char} {groups : List Nat} (half : HalfText part groups) :
      ∀ group ∈ groups, group < 65536 := by
    rcases half with ⟨-, rfl⟩ | reads
    · exact List.forall_mem_nil _
    · exact reads.small
  rcases reads with ⟨reads, -⟩ | ⟨l, r, left, right, -, leftHalf, rightHalf, -, rfl⟩
  · exact reads.small
  · simp only [List.forall_mem_append]
    refine ⟨⟨half leftHalf, fun group held => ?_⟩, half rightHalf⟩
    rw [List.eq_of_mem_replicate held]
    decide

/-- Exactly the addresses in a blocked block are blocked. -/
theorem isBlockedIpv6_eq (reads : Ipv6Text (text.map Char.toLower) groups) :
    isBlockedIpv6 text = .ok (decide (BlockedIpv6 (ipv6Value groups))) := by
  have small := reads.small
  have eight := reads.eight
  unfold isBlockedIpv6
  rw [parseIpv6_iff.mpr ⟨groups, reads, rfl⟩]
  obtain ⟨a, b, c, d, e, f, g, h, rfl⟩ :
      ∃ a b c d e f g h, groups = [a, b, c, d, e, f, g, h] := by
    match groups, eight with
    | [a, b, c, d, e, f, g, h], _ => exact ⟨a, b, c, d, e, f, g, h, rfl⟩
  exact isBlockedBytes_eq small

/-- A loopback address behind a translating prefix lies in no blocked block. -/
theorem isBlockedIpv6_eq_translated :
    isBlockedIpv6 "64:FF9B::7F00:1".toList = .ok false := by
  have left : GroupsText "64:ff9b".toList [0x64, 0xff9b] :=
    @GroupsText.cons "64".toList "ff9b".toList _ rfl (.group rfl)
  have right : GroupsText "7f00:1".toList [0x7f00, 1] :=
    @GroupsText.cons "7f00".toList "1".toList _ rfl (.group rfl)
  have reads : Ipv6Text ("64:FF9B::7F00:1".toList.map Char.toLower)
      [0x64, 0xff9b, 0, 0, 0, 0, 0x7f00, 1] :=
    .inr ⟨_, _, _, _, rfl, .inr left, .inr right, by decide, rfl⟩
  rw [isBlockedIpv6_eq reads]
  decide

end Blocked

end Opensquid.WebFetch
