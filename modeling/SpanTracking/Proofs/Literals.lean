import SpanTracking.Proofs.Acceptance
import SpanTracking.Text.Listing

set_option autoImplicit false

namespace SpanTracking.Text

def bytes (text : String) : List UInt8 := text.toUTF8.data.toList

def literal (text : String) : String := "c\"" ++ escape text ++ "\\00\""

def closing : List Char := ['\\', '0', '0', '"']

/-! ### Bytes of a text -/

theorem bytes_eq_flatMap (text : String) :
    bytes text = text.toList.flatMap String.utf8EncodeChar := by
  rw [bytes, String.toUTF8, ← String.utf8Encode_toList, List.utf8Encode, List.data_toByteArray]

theorem bytes_inj {s t : String} : bytes s = bytes t ↔ s = t := by
  constructor
  · intro h
    exact String.toByteArray_inj.1 (ByteArray.ext (Array.toList_inj.1 h))
  · exact congrArg bytes

/-- No other character has a NUL among its bytes. -/
theorem zero_mem_utf8EncodeChar {c : Char} : 0 ∈ String.utf8EncodeChar c ↔ c = '\x00' := by
  have hbyte : ∀ n < 256, 0 = UInt8.ofNat n ↔ n = 0 := by
    intro n hn
    rw [← UInt8.toNat_inj, UInt8.toNat_ofNat_of_lt' hn, eq_comm]
    rfl
  have hchar : c = '\x00' ↔ c.val.toNat = 0 := by
    rw [Char.ext_iff, ← UInt32.toNat_inj]
    rfl
  rw [hchar]
  unfold String.utf8EncodeChar
  dsimp only
  split_ifs with h₁ h₂ h₃
  · simp only [List.mem_singleton, hbyte c.val.toNat (by omega)]
  all_goals
    simp only [List.mem_cons, List.not_mem_nil, or_false]
    simp (disch := omega) only [hbyte]
    omega

theorem zero_mem_bytes {text : String} : 0 ∈ bytes text ↔ '\x00' ∈ text.toList := by
  simp [bytes_eq_flatMap, zero_mem_utf8EncodeChar]

/-! ### The forms of a written byte -/

def digit? (c : Char) : Option Nat :=
  if '0' ≤ c ∧ c ≤ '9' then some (c.toNat - '0'.toNat)
  else if 'a' ≤ c ∧ c ≤ 'f' then some (c.toNat - 'a'.toNat + 10)
  else none

def hex? (high low : Char) : Option UInt8 := do
  return UInt8.ofNat (16 * (← digit? high) + (← digit? low))

def named? : Char → Option UInt8
  | 't' => some 0x09
  | 'r' => some 0x0d
  | 'n' => some 0x0a
  | '\'' => some 0x27
  | '"' => some 0x22
  | '\\' => some 0x5c
  | _ => none

def plain? (c : Char) : Option UInt8 :=
  if 0x20 ≤ c.toNat ∧ c.toNat ≤ 0x7e ∧ c ≠ '"' ∧ c ≠ '\\' then some (UInt8.ofNat c.toNat) else none

inductive Writes (b : UInt8) : List Char → Prop
  | plain {c : Char} (h : plain? c = some b) : Writes b [c]
  | named {c : Char} (h : named? c = some b) : Writes b ['\\', c]
  | hex {high low : Char} (h : hex? high low = some b) : Writes b ['\\', 'x', high, low]

theorem digit?_hexDigit {n : Nat} (h : n < 16) : digit? (hexDigit n) = some n := by
  revert n
  decide

theorem hex?_hexDigit (b : UInt8) :
    hex? (hexDigit (b.toNat / 16)) (hexDigit (b.toNat % 16)) = some b := by
  have hb := b.toNat_lt
  simp only [hex?, digit?_hexDigit (show b.toNat / 16 < 16 by omega),
    digit?_hexDigit (show b.toNat % 16 < 16 by omega), Option.bind_eq_bind, Option.bind_some,
    Option.pure_def, Nat.div_add_mod, UInt8.ofNat_toNat]

theorem plain?_ofNat {b : UInt8} (hlow : 0x20 ≤ b) (hhigh : b < 0x7f) (hquote : b ≠ 0x22)
    (hslash : b ≠ 0x5c) : plain? (Char.ofNat b.toNat) = some b := by
  have hnat : (Char.ofNat b.toNat).toNat = b.toNat := by
    rw [Char.toNat_ofNat, if_pos (.inl (by have := b.toNat_lt; omega))]
  have hne : ∀ c : Char, b ≠ UInt8.ofNat c.toNat → Char.ofNat b.toNat ≠ c := by
    intro c hc heq
    rw [← heq, hnat, UInt8.ofNat_toNat] at hc
    exact hc rfl
  have hlow' : 0x20 ≤ b.toNat := UInt8.le_iff_toNat_le.1 hlow
  have hhigh' : b.toNat < 0x7f := UInt8.lt_iff_toNat_lt.1 hhigh
  rw [plain?, hnat, if_pos ⟨hlow', by omega, hne '"' hquote, hne '\\' hslash⟩,
    UInt8.ofNat_toNat]

theorem escapeByte_writes (b : UInt8) : Writes b (escapeByte b) := by
  unfold escapeByte
  split_ifs with ht hr hn ha hq hs hp
  · exact .named (c := 't') (by rw [ht]; rfl)
  · exact .named (c := 'r') (by rw [hr]; rfl)
  · exact .named (c := 'n') (by rw [hn]; rfl)
  · exact .named (c := '\'') (by rw [ha]; rfl)
  · exact .named (c := '"') (by rw [hq]; rfl)
  · exact .named (c := '\\') (by rw [hs]; rfl)
  · exact .plain (plain?_ofNat hp.1 hp.2 hq hs)
  · exact .hex (hex?_hexDigit b)

theorem escapeBytes_cons (b : UInt8) (bs : List UInt8) :
    escapeBytes (b :: bs) = escapeByte b ++ escapeBytes bs :=
  List.flatMap_cons

/-! ### Reading -/

/-- Reads bytes up to the end of the literal, and hands back what comes after it. -/
def readBytes : List Char → Option (List UInt8 × List Char)
  | '\\' :: '0' :: '0' :: '"' :: rest => some ([], rest)
  | '\\' :: 'x' :: high :: low :: rest => do
    let b ← hex? high low
    let (bs, after) ← readBytes rest
    return (b :: bs, after)
  | '\\' :: c :: rest => do
    let b ← named? c
    let (bs, after) ← readBytes rest
    return (b :: bs, after)
  | c :: rest => do
    let b ← plain? c
    let (bs, after) ← readBytes rest
    return (b :: bs, after)
  | [] => none

def readLiteral : List Char → Option (List UInt8 × List Char)
  | 'c' :: '"' :: rest => readBytes rest
  | _ => none

/-- However a byte is written, and whatever comes after it, it is read. -/
theorem readBytes_writes {b : UInt8} {w : List Char} (h : Writes b w) (rest : List Char) :
    readBytes (w ++ rest) = (readBytes rest).map fun (bs, after) => (b :: bs, after) := by
  cases h with
  | @plain c h =>
    have hc : c ≠ '\\' := by
      rintro rfl
      simp [plain?] at h
    cases hrest : readBytes rest <;> simp [readBytes, hc, h, hrest]
  | @named c h =>
    have hc : c ≠ 'x' ∧ c ≠ '0' := by
      constructor <;> rintro rfl <;> simp [named?] at h
    cases hrest : readBytes rest <;> simp [readBytes, hc, h, hrest]
  | hex h =>
    cases hrest : readBytes rest <;> simp [readBytes, h, hrest]

theorem readBytes_escapeBytes (bs : List UInt8) (rest : List Char) :
    readBytes (escapeBytes bs ++ (closing ++ rest)) = some (bs, rest) := by
  induction bs with
  | nil => rfl
  | cons b bs ih =>
    rw [escapeBytes_cons, List.append_assoc, readBytes_writes (escapeByte_writes b), ih]
    rfl

theorem toList_literal (text : String) :
    (literal text).toList = 'c' :: '"' :: (escapeBytes (bytes text) ++ closing) := by
  simp [literal, escape, bytes, closing]

theorem readLiteral_literal (text : String) (rest : List Char) :
    readLiteral ((literal text).toList ++ rest) = some (bytes text, rest) := by
  rw [toList_literal, List.cons_append, List.cons_append, List.append_assoc]
  exact readBytes_escapeBytes (bytes text) rest

theorem literal_inj {s t : String} (h : literal s = literal t) : s = t := by
  have hread := readLiteral_literal s []
  rw [h, readLiteral_literal] at hread
  exact (bytes_inj.1 (Prod.mk.inj (Option.some.inj hread)).1).symm

/-! ### Printable characters -/

def Printable (c : Char) : Prop := 0x20 ≤ c.toNat ∧ c.toNat ≤ 0x7e

instance (c : Char) : Decidable (Printable c) :=
  inferInstanceAs (Decidable (0x20 ≤ c.toNat ∧ c.toNat ≤ 0x7e))

theorem plain?_eq_some {c : Char} {b : UInt8} (h : plain? c = some b) :
    Printable c ∧ c ≠ '"' ∧ c ≠ '\\' := by
  unfold plain? at h
  split_ifs at h with hc
  exact ⟨⟨hc.1, hc.2.1⟩, hc.2.2⟩

theorem named?_eq_some {c : Char} {b : UInt8} (h : named? c = some b) : Printable c := by
  unfold named? at h
  split at h
  case h_7 => simp at h
  all_goals decide

theorem digit?_eq_some {c : Char} {n : Nat} (h : digit? c = some n) :
    Printable c ∧ c ≠ '"' ∧ c ≠ '\\' := by
  -- Digits and small letters are between the quote and the end of ASCII, and not the backslash.
  have hrange : (0x30 ≤ c.toNat ∧ c.toNat ≤ 0x39) ∨ (0x61 ≤ c.toNat ∧ c.toNat ≤ 0x66) := by
    unfold digit? at h
    split_ifs at h with hdec hhex
    · exact .inl ⟨UInt32.le_iff_toNat_le.1 hdec.1, UInt32.le_iff_toNat_le.1 hdec.2⟩
    · exact .inr ⟨UInt32.le_iff_toNat_le.1 hhex.1, UInt32.le_iff_toNat_le.1 hhex.2⟩
  refine ⟨⟨by omega, by omega⟩, ?_, ?_⟩
  · rintro rfl
    revert hrange
    decide
  · rintro rfl
    revert hrange
    decide

theorem hex?_eq_some {high low : Char} {b : UInt8} (h : hex? high low = some b) :
    (∃ n, digit? high = some n) ∧ ∃ n, digit? low = some n := by
  unfold hex? at h
  cases hhigh : digit? high with
  | none => simp [hhigh] at h
  | some m =>
    cases hlow : digit? low with
    | none => simp [hhigh, hlow] at h
    | some n => exact ⟨⟨m, rfl⟩, n, rfl⟩

theorem Writes.printable {b : UInt8} {w : List Char} (h : Writes b w) : ∀ c ∈ w, Printable c := by
  cases h with
  | plain h => exact List.forall_mem_singleton.2 (plain?_eq_some h).1
  | named h => simpa using ⟨by decide, named?_eq_some h⟩
  | hex h =>
    obtain ⟨⟨m, hhigh⟩, n, hlow⟩ := hex?_eq_some h
    simpa using ⟨by decide, by decide, (digit?_eq_some hhigh).1, (digit?_eq_some hlow).1⟩

theorem printable_escapeBytes (bs : List UInt8) : ∀ c ∈ escapeBytes bs, Printable c := by
  intro c hc
  obtain ⟨b, -, hb⟩ := List.mem_flatMap.1 hc
  exact (escapeByte_writes b).printable c hb

theorem bytes_printable {s : String} (h : ∀ c ∈ s.toList, Printable c) :
    ∀ b ∈ bytes s, 0x20 ≤ b ∧ b ≤ 0x7e := by
  intro b hb
  rw [bytes_eq_flatMap] at hb
  obtain ⟨c, hc, hb⟩ := List.mem_flatMap.1 hb
  obtain ⟨hlow, hhigh⟩ := h c hc
  have hascii : c.val.toNat ≤ 127 := by
    change c.toNat ≤ 127
    omega
  simp only [String.utf8EncodeChar, if_pos hascii, List.mem_singleton] at hb
  have hnat : b.toNat = c.toNat := by
    rw [hb, UInt8.toNat_ofNat_of_lt' (show c.val.toNat < 256 by omega)]
    rfl
  exact ⟨UInt8.le_iff_toNat_le.2 (hnat ▸ hlow), UInt8.le_iff_toNat_le.2 (hnat ▸ hhigh)⟩

/-! ### Quotes -/

/-- The character after `before` is escaped, by a backslash that is not escaped itself. -/
def escapes (before : List Char) : Bool :=
  before.foldl (fun pending c => !pending && c == '\\') false

theorem escapes_append {w : List Char} (h : escapes w = false) (rest : List Char) :
    escapes (w ++ rest) = escapes rest := by
  rw [escapes, List.foldl_append]
  exact congrArg (List.foldl _ · rest) h

theorem Writes.escapes_eq_false {b : UInt8} {w : List Char} (h : Writes b w) :
    escapes w = false := by
  cases h with
  | plain h => simpa [escapes] using (plain?_eq_some h).2.2
  | named h => simp [escapes]
  | hex h =>
    obtain ⟨⟨m, hhigh⟩, n, hlow⟩ := hex?_eq_some h
    simp [escapes, (digit?_eq_some hhigh).2.2, (digit?_eq_some hlow).2.2]

/-- A quote in the writing of a byte is the one after a backslash. -/
theorem Writes.quote_escaped {b : UInt8} {before after : List Char}
    (h : Writes b (before ++ '"' :: after)) : escapes before = true := by
  generalize hw : before ++ '"' :: after = w at h
  have hquote : '"' ∈ w := by simp [← hw]
  cases h with
  | plain h => exact absurd (List.mem_singleton.1 hquote).symm (plain?_eq_some h).2.1
  | named h =>
    rcases before with _ | ⟨c, _ | ⟨d, before⟩⟩
    · simp at hw
    · obtain ⟨rfl, -⟩ := List.cons.inj hw
      rfl
    · simp at hw
  | hex h =>
    obtain ⟨⟨m, hhigh⟩, n, hlow⟩ := hex?_eq_some h
    simp [(digit?_eq_some hhigh).2.1.symm, (digit?_eq_some hlow).2.1.symm] at hquote

theorem escapes_escapeBytes (bs : List UInt8) : escapes (escapeBytes bs) = false := by
  induction bs with
  | nil => rfl
  | cons b bs ih =>
    rw [escapeBytes_cons, escapes_append (escapeByte_writes b).escapes_eq_false, ih]

theorem quote_escaped_of_escapeBytes {bs : List UInt8} {before after : List Char}
    (h : escapeBytes bs = before ++ '"' :: after) : escapes before = true := by
  induction bs generalizing before with
  | nil => simp [escapeBytes] at h
  | cons b bs ih =>
    rw [escapeBytes_cons] at h
    obtain ⟨between, hbefore, hrest⟩ | ⟨between, hbyte, hrest⟩ := List.append_eq_append_iff.1 h
    · rw [hbefore, escapes_append (escapeByte_writes b).escapes_eq_false]
      exact ih hrest
    · cases between with
      | nil =>
        have hfirst : escapes [] = true := ih hrest.symm
        simp [escapes] at hfirst
      | cons c between =>
        obtain ⟨rfl, -⟩ := List.cons.inj hrest
        exact Writes.quote_escaped (hbyte ▸ escapeByte_writes b)

/-- Of the quotes up to the end of the literal, only the last one is not escaped. -/
theorem escapes_eq_false_iff {bs : List UInt8} {before after : List Char}
    (h : escapeBytes bs ++ closing = before ++ '"' :: after) :
    escapes before = false ↔ after = [] := by
  obtain ⟨between, hbefore, hend⟩ | ⟨between, hbytes, hend⟩ := List.append_eq_append_iff.1 h
  · have hafter : escapes between = false ∧ after = [] := by
      rcases between with _ | ⟨_, _ | ⟨_, _ | ⟨_, _ | ⟨_, between⟩⟩⟩⟩ <;> simp [closing] at hend
      obtain ⟨rfl, rfl, rfl, rfl⟩ := hend
      exact ⟨rfl, rfl⟩
    rw [hbefore, escapes_append (escapes_escapeBytes bs)]
    exact ⟨fun _ => hafter.2, fun _ => hafter.1⟩
  · cases between with
    | nil => simp [closing] at hend
    | cons c between =>
      obtain ⟨rfl, rfl⟩ := List.cons.inj hend
      simp [quote_escaped_of_escapeBytes hbytes, closing]

theorem quote_bare_iff {text : String} {before after : List Char}
    (h : (literal text).toList = before ++ '"' :: after) :
    escapes before = false ↔ before = ['c'] ∨ after = [] := by
  rw [toList_literal] at h
  rcases before with _ | ⟨c, _ | ⟨d, before⟩⟩
  · simp at h
  · obtain ⟨rfl, -⟩ := List.cons.inj h
    simp [escapes]
  · obtain ⟨rfl, htail⟩ := List.cons.inj h
    obtain ⟨rfl, hend⟩ := List.cons.inj htail
    have hsame : escapes ('c' :: '"' :: before) = escapes before := rfl
    rw [hsame, escapes_eq_false_iff hend]
    simp

theorem closing_last {text : String} {before after : List Char}
    (h : (literal text).toList = before ++ closing ++ after) : after = [] := by
  have hsplit : before ++ closing ++ after = (before ++ ['\\', '0', '0']) ++ '"' :: after := by
    simp [closing]
  have hbare : escapes (before ++ ['\\', '0', '0']) = false := by simp [escapes]
  rcases (quote_bare_iff (h.trans hsplit)).1 hbare with hopen | hlast
  · simp [List.append_eq_singleton_iff] at hopen
  · exact hlast

structure Legible (text : String) : Prop where
  printable : ∀ b ∈ bytes (literal text), 0x20 ≤ b ∧ b ≤ 0x7e
  /-- All quotes but the first and the last are escaped. -/
  quotes : ∀ before after, (literal text).toList = before ++ '"' :: after →
    (escapes before = false ↔ before = ['c'] ∨ after = [])
  readBack : ∀ rest, readLiteral ((literal text).toList ++ rest) = some (bytes text, rest)
  /-- What looks like the end of the literal is its end. -/
  closed : ∀ before after, (literal text).toList = before ++ closing ++ after → after = []
  unique : ∀ other, literal other = literal text → other = text

theorem legible (text : String) : Legible text where
  printable := by
    refine bytes_printable ?_
    rw [toList_literal]
    have hclosing : ∀ c ∈ closing, Printable c := by simp [closing, Printable]
    simp only [List.forall_mem_cons, List.forall_mem_append]
    exact ⟨by decide, by decide, printable_escapeBytes _, hclosing⟩
  quotes _ _ := quote_bare_iff
  readBack := readLiteral_literal text
  closed _ _ := closing_last
  unique _ := literal_inj

end SpanTracking.Text

namespace SpanTracking.Program

theorem literal_listed {p : Program} {t : LiteralId} {text : String}
    (h : p.literal? t = some text) : ∃ before after, p.listing =
      unlines (before ++ ("@.str" ++ toString t.index ++ " = " ++ Text.literal text) :: after) := by
  have hline : literalLine t.index text =
      "@.str" ++ toString t.index ++ " = " ++ Text.literal text := by
    apply String.toList_inj.1
    simp [literalLine, Text.literal]
  have hmem : literalLine t.index text ∈ p.literalLines := by
    obtain ⟨hlt, htext⟩ := List.getElem?_eq_some_iff.1 h
    exact List.mem_flatMap.2 ⟨_, List.mem_mapIdx.2 ⟨t.index, hlt, by rw [htext]⟩, by simp⟩
  obtain ⟨before, after, hlines⟩ := List.append_of_mem hmem
  refine ⟨p.layoutLines ++ before, after ++ p.declLines ++ p.bodyLines, ?_⟩
  rw [listing, hlines, ← hline]
  simp

/-- A text is interned exactly if none of its bytes is NUL. Its literal is then in the listing of
every later program, under the number that was handed out, and tells the text. -/
theorem literals_legible (p : Program) (text : String) :
    ((∃ t p', intern text p = .ok t p') ↔ 0 ∉ Text.bytes text) ∧
    ∀ t p', intern text p = .ok t p' → Text.Legible text ∧
      ∀ q, p'.Leads q → ∃ before after, q.listing = unlines (before ++
        ("@.str" ++ toString t.index ++ " = " ++ Text.literal text) :: after) := by
  constructor
  · rw [intern_ok_iff, Text.zero_mem_bytes]
  · intro t p' h
    refine ⟨Text.legible text, fun q hq => literal_listed ?_⟩
    have hgranted : Edit.Granted p' (.intern text) (.text t) := (intern_cases h).1
    exact hgranted.mono hq.extends

/-- A text that begins like the end of a literal. -/
def impostor : String := "\\00\"\té"

theorem literals_legible_impostor : intern impostor {} = .ok ⟨0⟩ { literals := [impostor] } ∧
    Text.literal impostor = "c\"\\\\00\\\"\\t\\xc3\\xa9\\00\"" ∧
    Text.readLiteral (Text.literal impostor).toList =
      some ([0x5c, 0x30, 0x30, 0x22, 0x09, 0xc3, 0xa9], []) ∧
    ∃ before after, listing { literals := [impostor] } =
      unlines (before ++ ("@.str" ++ toString 0 ++ " = " ++ Text.literal impostor) :: after) := by
  have hintern : intern impostor {} = .ok ⟨0⟩ { literals := [impostor] } := rfl
  obtain ⟨hlegible, hlisted⟩ := (literals_legible {} impostor).2 _ _ hintern
  refine ⟨hintern, by decide +kernel, ?_, hlisted _ .refl⟩
  have hbytes : Text.bytes impostor = [0x5c, 0x30, 0x30, 0x22, 0x09, 0xc3, 0xa9] := by
    decide +kernel
  simpa [hbytes] using hlegible.readBack []

end SpanTracking.Program
