import Cuttlefish.Conninfo
import Cuttlefish.Utf8

/-!
# Cuttlefish.Config.ConnStr

The connection strings of both sides: `ConnStr` (`fs_api`) escapes byte by
byte, `get_db_client` (`fs_common`) character by character.

`connStr_parses` says that each string parses to the parameters it was built
from, whatever they are, and that both escapers write the same bytes.
-/

namespace Cuttlefish

open Conninfo

/-! ## fs_api -/

/-- The fields of `DatabaseConfig` that `ConnStr` reads; a Go string is bytes. -/
structure DatabaseConfig where
  host : Bytes
  user : Bytes
  password : Bytes
  dbName : Bytes
  sslMode : Bytes
  deriving DecidableEq, Repr

/-- Wraps a value in single quotes and escapes `'` and `\`. -/
def libpqEscape (v : Bytes) : Bytes :=
  39 :: v.flatMap (fun c => if c = 39 ∨ c = 92 then [92, c] else [c]) ++ [39]

def DatabaseConfig.connStr (d : DatabaseConfig) : Bytes :=
  utf8 "host=".toList ++ libpqEscape d.host ++ utf8 " user=".toList ++ libpqEscape d.user ++
    utf8 " password=".toList ++ libpqEscape d.password ++ utf8 " dbname=".toList ++
    libpqEscape d.dbName ++ utf8 " sslmode=".toList ++ libpqEscape d.sslMode

/-! ## fs_common -/

/-- The fields of `DbConfig` that go into the string. -/
structure DbConfig where
  host : Text
  user : Text
  password : Text
  dbname : Text
  deriving DecidableEq, Repr

/-- `libpq_escape`. -/
def Common.libpqEscape (v : Text) : Text :=
  '\'' :: v.flatMap (fun c => if c = '\'' ∨ c = '\\' then ['\\', c] else [c]) ++ ['\'']

/-- `conn_str` in `get_db_client`. -/
def DbConfig.connStr (c : DbConfig) : Text :=
  "host=".toList ++ Common.libpqEscape c.host ++ " user=".toList ++ Common.libpqEscape c.user ++
    " password=".toList ++ Common.libpqEscape c.password ++ " dbname=".toList ++
    Common.libpqEscape c.dbname

/-! ## the grammar -/

/-- C's `isspace`. -/
def isCSpace (n : Nat) : Bool := n = 32 || (9 ≤ n && n ≤ 13)

/-- libpq reads bytes. -/
def byteAlphabet : Alphabet UInt8 where
  quote := 39
  backslash := 92
  equals := 61
  space := 32
  isSpace b := isCSpace b.toNat
  isSpace_space := by decide
  isSpace_quote := by decide
  isSpace_equals := by decide
  quote_ne_backslash := by decide

/-- A driver may read characters. -/
def charAlphabet : Alphabet Char where
  quote := '\''
  backslash := '\\'
  equals := '='
  space := ' '
  isSpace c := isCSpace c.toNat
  isSpace_space := by decide
  isSpace_quote := by decide
  isSpace_equals := by decide
  quote_ne_backslash := by decide

theorem connStr_eq_render (d : DatabaseConfig) :
    d.connStr = render byteAlphabet
      [(utf8 "host".toList, d.host), (utf8 "user".toList, d.user),
        (utf8 "password".toList, d.password), (utf8 "dbname".toList, d.dbName),
        (utf8 "sslmode".toList, d.sslMode)] := by
  have hescape (v : Bytes) : escape byteAlphabet v = libpqEscape v := rfl
  have hequals : byteAlphabet.equals = 61 := rfl
  have hspace : byteAlphabet.space = 32 := rfl
  have hequalsChar : String.utf8EncodeChar '=' = [61] := by decide
  have hspaceChar : String.utf8EncodeChar ' ' = [32] := by decide
  unfold DatabaseConfig.connStr
  simp [render, renderPair, hescape, hequals, hspace, hequalsChar, hspaceChar]

theorem dbConfig_connStr_eq_render (c : DbConfig) :
    c.connStr = render charAlphabet
      [("host".toList, c.host), ("user".toList, c.user), ("password".toList, c.password),
        ("dbname".toList, c.dbname)] := by
  have hescape (v : Text) : escape charAlphabet v = Common.libpqEscape v := by
    simp only [Common.libpqEscape, escape, charAlphabet]
    congr
  have hequals : charAlphabet.equals = '=' := rfl
  have hspace : charAlphabet.space = ' ' := rfl
  unfold DbConfig.connStr
  simp [render, renderPair, hescape, hequals, hspace]

/-! ## the same bytes -/

/-- **Both escapers write the same bytes.** -/
theorem utf8_libpqEscape (v : Text) : utf8 (Common.libpqEscape v) = libpqEscape (utf8 v) := by
  have hquote : String.utf8EncodeChar '\'' = [39] := by decide
  have hbackslash : String.utf8EncodeChar '\\' = [92] := by decide
  have hbody : utf8 (v.flatMap fun c => if c = '\'' ∨ c = '\\' then ['\\', c] else [c]) =
      (utf8 v).flatMap fun b => if b = 39 ∨ b = 92 then [92, b] else [b] := by
    induction v with
    | nil => rfl
    | cons c v ih =>
        rw [List.flatMap_cons, utf8_append, ih, utf8_cons, List.flatMap_append]
        congr 1
        by_cases hspecial : c = '\'' ∨ c = '\\'
        · cases hspecial with
          | inl h =>
              rw [h]
              decide
          | inr h =>
              rw [h]
              decide
        · -- no byte of any other character is escaped
          have hplain : ∀ b ∈ String.utf8EncodeChar c, ¬ (b = 39 ∨ b = 92) := by
            intro b hb hor
            refine hspecial (hor.imp (fun h => ?_) fun h => ?_)
            · exact eq_of_mem_utf8EncodeChar (by decide) hquote (h ▸ hb)
            · exact eq_of_mem_utf8EncodeChar (by decide) hbackslash (h ▸ hb)
          rw [if_neg hspecial, utf8_cons, utf8_nil, List.append_nil]
          generalize String.utf8EncodeChar c = bs at hplain
          induction bs with
          | nil => rfl
          | cons b bs ihb =>
              rw [List.forall_mem_cons] at hplain
              rw [List.flatMap_cons, if_neg hplain.1, ← ihb hplain.2]
              rfl
  rw [Common.libpqEscape, libpqEscape, utf8_append, utf8_cons, hquote, hbody]
  simp [hquote]

/-- The string of `fs_common`, as bytes. -/
theorem utf8_connStr (c : DbConfig) :
    utf8 c.connStr = render byteAlphabet
      [(utf8 "host".toList, utf8 c.host), (utf8 "user".toList, utf8 c.user),
        (utf8 "password".toList, utf8 c.password), (utf8 "dbname".toList, utf8 c.dbname)] := by
  have hescape (v : Bytes) : escape byteAlphabet v = libpqEscape v := rfl
  have hequals : byteAlphabet.equals = 61 := rfl
  have hspace : byteAlphabet.space = 32 := rfl
  have hequalsChar : String.utf8EncodeChar '=' = [61] := by decide
  have hspaceChar : String.utf8EncodeChar ' ' = [32] := by decide
  unfold DbConfig.connStr
  simp [utf8_libpqEscape, render, renderPair, hescape, hequals, hspace, hequalsChar, hspaceChar]

/-! ## parameters in and out -/

/-- The keywords of the two formats. -/
def connKeywords : List Text :=
  ["host".toList, "user".toList, "password".toList, "dbname".toList, "sslmode".toList]

theorem isKeyword_chars {k : Text} (h : k ∈ connKeywords) : IsKeyword charAlphabet k := by
  have hall : ∀ k ∈ connKeywords, k.all (isKeywordChar charAlphabet) = true := by decide
  exact List.all_eq_true.mp (hall k h)

theorem isKeyword_bytes {k : Text} (h : k ∈ connKeywords) : IsKeyword byteAlphabet (utf8 k) := by
  have hall : ∀ k ∈ connKeywords, (utf8 k).all (isKeywordChar byteAlphabet) = true := by decide
  exact List.all_eq_true.mp (hall k h)

/-- **No value can add or change a parameter**: each connection string parses
to the keywords of its format, each with the value that was put in; and both
sides escape alike. -/
theorem connStr_parses :
    (∀ d : DatabaseConfig, parse byteAlphabet d.connStr =
        some [(utf8 "host".toList, d.host), (utf8 "user".toList, d.user),
          (utf8 "password".toList, d.password), (utf8 "dbname".toList, d.dbName),
          (utf8 "sslmode".toList, d.sslMode)]) ∧
      (∀ c : DbConfig,
        parse byteAlphabet (utf8 c.connStr) =
            some [(utf8 "host".toList, utf8 c.host), (utf8 "user".toList, utf8 c.user),
              (utf8 "password".toList, utf8 c.password),
              (utf8 "dbname".toList, utf8 c.dbname)] ∧
          parse charAlphabet c.connStr =
            some [("host".toList, c.host), ("user".toList, c.user),
              ("password".toList, c.password), ("dbname".toList, c.dbname)]) ∧
      ∀ v : Text, utf8 (Common.libpqEscape v) = libpqEscape (utf8 v) := by
  refine ⟨fun d => ?_, fun c => ⟨?_, ?_⟩, utf8_libpqEscape⟩
  · rw [connStr_eq_render]
    refine parse_render byteAlphabet ?_
    simp only [List.forall_mem_cons, List.not_mem_nil, false_imp_iff, implies_true, and_true]
    refine ⟨?_, ?_, ?_, ?_, ?_⟩ <;> exact isKeyword_bytes (by decide)
  · rw [utf8_connStr]
    refine parse_render byteAlphabet ?_
    simp only [List.forall_mem_cons, List.not_mem_nil, false_imp_iff, implies_true, and_true]
    refine ⟨?_, ?_, ?_, ?_⟩ <;> exact isKeyword_bytes (by decide)
  · rw [dbConfig_connStr_eq_render]
    refine parse_render charAlphabet ?_
    simp only [List.forall_mem_cons, List.not_mem_nil, false_imp_iff, implies_true, and_true]
    refine ⟨?_, ?_, ?_, ?_⟩ <;> exact isKeyword_chars (by decide)

end Cuttlefish
