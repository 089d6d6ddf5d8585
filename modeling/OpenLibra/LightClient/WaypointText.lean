import Mathlib.Data.List.Forall2
import Mathlib.Tactic.IntervalCases
import OpenLibra.Crypto.HashValue
import OpenLibra.LightClient.TrustedState

/-!
# Text form of waypoints

`from_str` reads the first two parts of the text between colons and looks at no
part behind them.
-/

namespace OpenLibra.LightClient

open Rust Crypto

inductive ParseIntError where
  | empty | invalidDigit | posOverflow
deriving DecidableEq, Repr

structure HashValueParseError where
deriving DecidableEq, Repr

inductive WaypointError where
  | text (message : String)
  | version (e : ParseIntError)
  | value (e : HashValueParseError)
deriving DecidableEq, Repr

/-!
# Versions
-/

def parseDigit (number : Nat) (c : Char) : Outcome ParseIntError Nat := do
  ensure c.isDigit .invalidDigit
  ensure (10 * number + (c.toNat - 48) < u64Bound) .posOverflow
  return 10 * number + (c.toNat - 48)

/-- `parse::<u64>`: one plus sign may stand before the digits. -/
def parseU64 : List Char -> Outcome ParseIntError Nat
  | [] => .err .empty
  | '+' :: c :: rest => tryFold parseDigit 0 (c :: rest)
  | text => tryFold parseDigit 0 text

theorem parseDigit_digitChar {number digit} (hdigit : digit < 10)
    (hbound : 10 * number + digit < u64Bound) :
    parseDigit number digit.digitChar = .ok (10 * number + digit) := by
  have hval : digit.digitChar.toNat - 48 = digit := by
    rw [Nat.toNat_digitChar_of_lt_ten hdigit, Nat.add_sub_cancel_left]
  have hchar : digit.digitChar.isDigit := by
    apply Nat.isDigit_of_mem_toDigits (b := 10) (n := digit) (by decide) (by decide)
    simp [Nat.toDigits_of_lt_base hdigit]
  simp [parseDigit, hval, hchar, hbound, ensure]

theorem tryFold_append {alpha beta error : Type} {step : beta -> alpha -> Outcome error beta}
    {start xs ys} :
    tryFold step start (xs ++ ys) = tryFold step start xs >>= (tryFold step · ys) := by
  induction xs generalizing start with
  | nil => rfl
  | cons x xs ih =>
    rw [List.cons_append, tryFold, tryFold]
    cases step start x with
    | ok next => exact ih
    | err | panic => rfl

theorem tryFold_parseDigit_toDigits {n} (h : n < u64Bound) :
    tryFold parseDigit 0 (Nat.toDigits 10 n) = .ok n := by
  induction n using Nat.strongRecOn with
  | ind n ih =>
    rcases lt_or_ge n 10 with hsmall | hlarge
    · rw [Nat.toDigits_of_lt_base hsmall, tryFold, parseDigit_digitChar hsmall (by omega)]
      simp [tryFold]
    · have hdiv := Nat.div_add_mod n 10
      rw [Nat.toDigits_of_base_le (by decide) hlarge, tryFold_append,
        ih (n / 10) (by omega) (by omega), ok_bind, tryFold,
        parseDigit_digitChar (by omega) (by omega), hdiv]
      simp [tryFold]

theorem parseU64_toDigits {n} (h : n < u64Bound) : parseU64 (Nat.toDigits 10 n) = .ok n := by
  have hparsed := tryFold_parseDigit_toDigits h
  have hdigits : forall c, c ∈ Nat.toDigits 10 n -> c.isDigit := fun c hc =>
    Nat.isDigit_of_mem_toDigits (by decide) (by decide) hc
  unfold parseU64
  split
  · rename_i hnil
    exact absurd hnil Nat.toDigits_ne_nil
  · rename_i hplus
    rw [hplus] at hdigits
    exact absurd (hdigits '+' (by simp)) (by decide)
  · exact hparsed

/-!
# Hash values
-/

/-- The digit in either case. -/
def EitherCase (c digit : Char) : Prop := c = digit ∨ c = digit.toUpper

/-- What the crate `hex` documents of `<[u8; 32]>::from_hex`: it reads two digits for each byte,
in either case, and nothing else. -/
def DecodesHex (decode : List Char -> Option (Vector UInt8 32)) : Prop :=
  forall text bytes, decode text = some bytes <->
    List.Forall₂ EitherCase text (HashValue.mk bytes).toHex.toList

variable (decode : List Char -> Option (Vector UInt8 32))

def fromHex (text : List Char) : Outcome HashValueParseError HashValue :=
  match decode text with
  | some bytes => .ok ⟨bytes⟩
  | none => .err {}

theorem fromHex_eq_ok_iff {decode} (hdecode : DecodesHex decode) {text} {value : HashValue} :
    fromHex decode text = .ok value <-> List.Forall₂ EitherCase text value.toHex.toList := by
  rcases value with ⟨value⟩
  rw [← hdecode text value]
  unfold fromHex
  cases decode text with
  | none | some => simp

/-!
# Waypoints
-/

namespace Waypoint

def display (self : Waypoint HashValue) : String :=
  toString self.version ++ ":" ++ self.value.toHex

def split (s : String) : List (List Char) := s.toList.splitOn ':'

def part (s : String) (i : Nat) : Outcome WaypointError (List Char) :=
  match (split s)[i]? with
  | some text => .ok text
  | none => .err (.text ("Failed to parse waypoint string " ++ s))

def fromStr (s : String) : Outcome WaypointError (Waypoint HashValue) := do
  let version <- (parseU64 (<- part s 0)).mapErr .version
  let value <- (fromHex decode (<- part s 1)).mapErr .value
  return { version, value }

theorem part_eq_ok_iff {s i text} : part s i = .ok text <-> (split s)[i]? = some text := by
  unfold part
  cases (split s)[i]? with
  | none | some => simp

variable {decode}

theorem fromStr_eq_ok_iff (hdecode : DecodesHex decode) {s w} :
    fromStr decode s = .ok w <-> exists version value others, split s = version :: value :: others ∧
      parseU64 version = .ok w.version ∧ List.Forall₂ EitherCase value w.value.toHex.toList := by
  simp only [fromStr, bind_eq_ok_iff, mapErr_eq_ok_iff, part_eq_ok_iff, ← fromHex_eq_ok_iff hdecode]
  constructor
  · rintro ⟨version, hver, number, hnum, value, hval, hash, hhash, hw⟩
    cases hw
    cases hsplit : split s with
    | nil => simp [hsplit] at hver
    | cons first rest =>
      cases rest with
      | nil => simp [hsplit] at hval
      | cons second others =>
        simp only [hsplit, List.getElem?_cons_zero, List.getElem?_cons_succ, Option.some.injEq]
          at hver hval
        subst hver hval
        exact ⟨_, _, _, rfl, hnum, hhash⟩
  · rintro ⟨version, value, others, hsplit, hver, hval⟩
    exact ⟨version, by simp [hsplit], _, hver, value, by simp [hsplit], _, hval, rfl⟩

theorem length_split (s : String) : (split s).length = s.toList.count ':' + 1 := by
  unfold split
  induction s.toList with
  | nil => rfl
  | cons c text ih =>
    rw [List.splitOn_cons_eq_if_modifyHead, List.count_cons]
    split <;> simp_all

theorem split_display (w : Waypoint HashValue) :
    split w.display = [Nat.toDigits 10 w.version, w.value.toHex.toList] := by
  have hver : ':' ∉ Nat.toDigits 10 w.version := fun h =>
    absurd (Nat.isDigit_of_mem_toDigits (by decide) (by decide) h) (by decide)
  have hval : ':' ∉ w.value.toHex.toList := by
    have hdigit : forall d, d < 16 -> ':' ≠ d.digitChar := by decide
    simp only [HashValue.toHex, String.toList_ofList, List.mem_flatMap, List.mem_cons,
      List.not_mem_nil, or_false, not_exists, not_and, not_or]
    intro byte _
    have hbyte := byte.toNat_lt
    exact ⟨hdigit _ (by omega), hdigit _ (by omega)⟩
  rw [split, display, String.toList_append, String.toList_append, Nat.toString_eq_repr,
    Nat.toList_repr, List.append_assoc]
  change (_ ++ ':' :: w.value.toHex.toList).splitOn ':' = _
  rw [List.splitOn_append_cons_self_of_not_mem hver, List.splitOn_eq_singleton hval]

/-- A printed waypoint is parsed back, and a text that is parsed is the text of the waypoint
exactly if it has one colon. -/
theorem fromStr_exact_iff (hdecode : DecodesHex decode) (w : Waypoint HashValue) (s : String) :
    (w.version < u64Bound -> fromStr decode w.display = .ok w) ∧
    (fromStr decode s = .ok w ->
      ((exists version value, split s = [version, value] ∧ parseU64 version = .ok w.version ∧
          List.Forall₂ EitherCase value w.value.toHex.toList) <->
        s.toList.count ':' = 1)) := by
  constructor
  · intro hversion
    exact (fromStr_eq_ok_iff hdecode).mpr ⟨_, _, [], split_display w, parseU64_toDigits hversion,
      List.forall₂_same.mpr fun _ _ => Or.inl rfl⟩
  · intro h
    rcases (fromStr_eq_ok_iff hdecode).mp h with ⟨version, value, others, hsplit, hversion, hvalue⟩
    have hlength := length_split s
    constructor
    · rintro ⟨_, _, htwo, _⟩
      simpa [htwo] using hlength
    · intro hcount
      rw [hcount, hsplit] at hlength
      cases others with
      | nil => exact ⟨version, value, hsplit, hversion, hvalue⟩
      | cons => simp at hlength

/-!
# A decoder
-/

def hexDigit (c : Char) : Option Nat :=
  if 'A' ≤ c ∧ c ≤ 'F' then some (c.toNat - 'A'.toNat + 10)
  else if 'a' ≤ c ∧ c ≤ 'f' then some (c.toNat - 'a'.toNat + 10)
  else if '0' ≤ c ∧ c ≤ '9' then some (c.toNat - '0'.toNat)
  else none

def hexByte (high low : Char) : Option UInt8 := do
  return UInt8.ofNat (16 * (<- hexDigit high) + (<- hexDigit low))

def hexBytes : List Char -> Option (List UInt8)
  | [] => some []
  | [_] => none
  | high :: low :: rest => do return (<- hexByte high low) :: (<- hexBytes rest)

theorem hexDigit_eq_some_iff {c d} : hexDigit c = some d <-> d < 16 ∧ EitherCase c d.digitChar := by
  constructor
  · intro h
    -- every character of a hexadecimal digit is below the one after 'f'
    have hall : forall n, n < 103 -> forall d, d ∈ hexDigit (Char.ofNat n) ->
      d < 16 ∧ EitherCase (Char.ofNat n) d.digitChar := by
      unfold EitherCase
      decide
    have hle : c ≤ 'F' ∨ c ≤ 'f' ∨ c ≤ '9' := by
      unfold hexDigit at h
      grind
    have hlt : c.toNat < 103 := by
      rcases hle with hle | hle | hle <;> exact lt_of_le_of_lt hle (by decide)
    have hdigit := hall c.toNat hlt d
    rw [Char.ofNat_toNat] at hdigit
    exact hdigit h
  · rintro ⟨hd, hc⟩
    interval_cases d <;> rcases hc with rfl | rfl <;> rfl

theorem hexByte_eq_some_iff {high low byte} :
    hexByte high low = some byte <-> EitherCase high (byte.toNat / 16).digitChar ∧
      EitherCase low (byte.toNat % 16).digitChar := by
  have hbyte := byte.toNat_lt
  simp only [hexByte, Option.bind_eq_bind, Option.bind_eq_some_iff, Option.pure_def,
    Option.some.injEq, hexDigit_eq_some_iff]
  constructor
  · rintro ⟨h, ⟨hh, hhigh⟩, l, ⟨hl, hlow⟩, rfl⟩
    rw [UInt8.toNat_ofNat', Nat.mod_eq_of_lt (by omega), show (16 * h + l) / 16 = h by omega,
      show (16 * h + l) % 16 = l by omega]
    exact ⟨hhigh, hlow⟩
  · rintro ⟨hhigh, hlow⟩
    refine ⟨_, ⟨by omega, hhigh⟩, _, ⟨by omega, hlow⟩, ?_⟩
    rw [Nat.div_add_mod, UInt8.ofNat_toNat]

theorem hexBytes_eq_some_iff {text bytes} : hexBytes text = some bytes <->
    List.Forall₂ EitherCase text (bytes.flatMap fun byte =>
        [Nat.digitChar (byte.toNat / 16), Nat.digitChar (byte.toNat % 16)]) := by
  induction text using hexBytes.induct generalizing bytes with
  | case1 => cases bytes <;> simp [hexBytes]
  | case2 => cases bytes <;> simp [hexBytes]
  | case3 high low rest ih =>
    cases bytes with
    | nil => simp [hexBytes, Option.bind_eq_some_iff]
    | cons byte bytes =>
      simp [hexBytes, Option.bind_eq_some_iff, hexByte_eq_some_iff, ih, and_assoc]

def decodeHex (text : List Char) : Option (Vector UInt8 32) :=
  (hexBytes text).bind fun bytes =>
    if h : bytes.length = 32 then some ⟨bytes.toArray, h⟩ else none

theorem decodeHex_decodesHex : DecodesHex decodeHex := by
  intro text bytes
  rw [HashValue.toHex, String.toList_ofList, ← hexBytes_eq_some_iff, decodeHex,
    Option.bind_eq_some_iff]
  constructor
  · rintro ⟨found, hfound, h⟩
    split at h
    · cases h
      simpa
    · cases h
  · intro h
    refine ⟨_, h, ?_⟩
    simp only [Vector.length_toList, dite_true, Option.some.injEq]
    exact Vector.toList_inj.mp (by simp)

def firstWaypoint : Waypoint HashValue := { version := 7, value := ⟨Vector.replicate 32 0xab⟩ }

theorem fromStr_display_first : DecodesHex decodeHex ∧
    fromStr decodeHex firstWaypoint.display = .ok firstWaypoint :=
  ⟨decodeHex_decodesHex,
    (fromStr_exact_iff decodeHex_decodesHex firstWaypoint "").1 (by decide)⟩

/-- A third part is not looked at. -/
theorem fromStr_third_part :
    let s := String.ofList (['0', ':'] ++ List.replicate 64 '0' ++ [':', 'x'])
    fromStr decodeHex s = .ok { version := 0, value := ⟨Vector.replicate 32 0⟩ } ∧
      s.toList.count ':' = 2 := by
  decide +kernel

end Waypoint
end OpenLibra.LightClient
