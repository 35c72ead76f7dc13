/-
  File:      SimpleLinux/Shell/Address.lean
  Subject:   Addresses as text: parse_ip of shell.rs and fmt of net/ip.rs.

  An address is cut at its dots, and each of the four parts is left to `from_str`. That takes a plus
  sign, so `parse_ip` does too.

  * `parseIp`, `fmt` -- the code;
  * `Dotted` -- four fields between three dots; `Octet` -- a field of an address as `from_str` has
    it; `parseIp_eq_some` -- the parser accepts these, as these numbers;
  * `Quad` -- a dotted quad, with digits only; `quad_fmt` -- what `fmt` prints is one;
  * `parseIp_quad_iff` -- the parser accepts exactly the dotted quads, apart from texts with a plus
    sign; `parseIp_plus` -- such a text.
-/
import SimpleLinux.Lib.FromStr
import SimpleLinux.Net.Wire

namespace SimpleLinux.Shell

open Rust
open Net (Byte Ipv4)

/-! ## 1. The code -/

/-- `part.parse::<u8>().ok()`. -/
def parseOctet (part : List Char) : Option Byte := (fromStr 255 part).map (BitVec.ofNat 8)

/-- "a.b.c.d" as four octets. -/
def parseIp (s : List Char) : Option Ipv4 :=
  match s.splitOn '.' with
  | [a, b, c, d] => do
    let out : Ipv4 := Vector.replicate 4 0#8
    let out := out.setIfInBounds 0 (← parseOctet a)
    let out := out.setIfInBounds 1 (← parseOctet b)
    let out := out.setIfInBounds 2 (← parseOctet c)
    let out := out.setIfInBounds 3 (← parseOctet d)
    return out
  | _ => none

/-- `write!(s, "{}.{}.{}.{}", ...)`. -/
def fmt (ip : Ipv4) : List Char :=
  let octet (b : Byte) := Nat.toDigits 10 b.toNat
  octet ip[0] ++ ['.'] ++ octet ip[1] ++ ['.'] ++ octet ip[2] ++ ['.'] ++ octet ip[3]

/-! ## 2. What is accepted -/

/-- Four fields between three dots, each with its number. -/
def Dotted (field : List Char → Byte → Prop) (s : List Char) (ip : Ipv4) : Prop :=
  ∃ a b c d, s = a ++ ['.'] ++ b ++ ['.'] ++ c ++ ['.'] ++ d ∧
    field a ip[0] ∧ field b ip[1] ∧ field c ip[2] ∧ field d ip[3]

/-- A field of digits, with or without a plus sign. -/
def Octet (part : List Char) (b : Byte) : Prop :=
  ∃ digits, Numeral digits b.toNat ∧ (part = digits ∨ part = '+' :: digits)

/-- A dotted quad: four non-empty runs of digits, separated by single dots. -/
def Quad : List Char → Ipv4 → Prop := Dotted fun part b => Numeral part b.toNat

/-- An address with a sign: at least one of its four octets is written with a plus. -/
def Signed (s : List Char) : Prop := '+' ∈ s ∧ ∃ ip, Dotted Octet s ip

theorem parseOctet_eq_some {part : List Char} {b : Byte} :
    parseOctet part = some b ↔ Octet part b := by
  rw [parseOctet, Option.map_eq_some_iff]
  constructor
  · intro ⟨v, hv, hb⟩
    obtain ⟨hle, digits, hnum, hpart⟩ := fromStr_eq_some.mp hv
    have htoNat : b.toNat = v := by
      rw [← hb, BitVec.toNat_ofNat, Nat.mod_eq_of_lt (by omega)]
    exact ⟨digits, htoNat ▸ hnum, hpart⟩
  · intro ⟨digits, hnum, hpart⟩
    have hlt := b.isLt
    exact ⟨b.toNat, fromStr_eq_some.mpr ⟨by omega, digits, hnum, hpart⟩, BitVec.ofNat_toNat ..⟩

/-- An octet has no dot in it. -/
theorem Octet.dot_notMem {part : List Char} {b : Byte} (h : Octet part b) : '.' ∉ part := by
  obtain ⟨digits, hnum, hpart⟩ := h
  have hdigits : '.' ∉ digits := hnum.notMem (by decide)
  rcases hpart with rfl | rfl
  · exact hdigits
  · exact List.not_mem_cons_of_ne_of_not_mem (by decide) hdigits

/-- Without a plus sign an octet is a numeral. -/
theorem Octet.numeral {part : List Char} {b : Byte} (h : Octet part b) (hplus : '+' ∉ part) :
    Numeral part b.toNat := by
  obtain ⟨digits, hnum, hpart⟩ := h
  rcases hpart with rfl | rfl
  · exact hnum
  · exact absurd List.mem_cons_self hplus

theorem intercalate_four (a b c d : List Char) :
    ['.'].intercalate [a, b, c, d] = a ++ ['.'] ++ b ++ ['.'] ++ c ++ ['.'] ++ d := by
  simp [List.intercalate]

theorem four_eta (ip : Ipv4) : #v[ip[0], ip[1], ip[2], ip[3]] = ip := by
  ext i hi
  match i with
  | 0 => rfl
  | 1 => rfl
  | 2 => rfl
  | 3 => rfl

/-- **What the parser accepts.** -/
theorem parseIp_eq_some {s : List Char} {ip : Ipv4} : parseIp s = some ip ↔ Dotted Octet s ip := by
  constructor
  · intro h
    unfold parseIp at h
    split at h
    · rename_i a b c d hparts
      have hs : s = a ++ ['.'] ++ b ++ ['.'] ++ c ++ ['.'] ++ d := by
        rw [← intercalate_four, ← hparts, List.intercalate_splitOn]
      obtain ⟨w, hw, h⟩ := Option.bind_eq_some_iff.mp h
      obtain ⟨x, hx, h⟩ := Option.bind_eq_some_iff.mp h
      obtain ⟨y, hy, h⟩ := Option.bind_eq_some_iff.mp h
      obtain ⟨z, hz, h⟩ := Option.bind_eq_some_iff.mp h
      cases h
      exact ⟨a, b, c, d, hs, parseOctet_eq_some.mp hw, parseOctet_eq_some.mp hx,
        parseOctet_eq_some.mp hy, parseOctet_eq_some.mp hz⟩
    · cases h
  · intro ⟨a, b, c, d, hs, ha, hb, hc, hd⟩
    have hparts : s.splitOn '.' = [a, b, c, d] := by
      rw [hs, ← intercalate_four]
      refine List.splitOn_intercalate '.' ?_ (List.cons_ne_nil _ _)
      simp only [List.forall_mem_cons]
      exact ⟨ha.dot_notMem, hb.dot_notMem, hc.dot_notMem, hd.dot_notMem, List.forall_mem_nil _⟩
    rw [parseIp, hparts]
    dsimp only
    rw [parseOctet_eq_some.mpr ha, parseOctet_eq_some.mpr hb, parseOctet_eq_some.mpr hc,
      parseOctet_eq_some.mpr hd]
    exact congrArg some (four_eta ip)

/-! ## 3. Dotted quads -/

theorem Dotted.imp {p q : List Char → Byte → Prop} {s : List Char} {ip : Ipv4} (h : Dotted p s ip)
    (hpq : ∀ part b, (∀ c ∈ part, c ∈ s) → p part b → q part b) : Dotted q s ip := by
  obtain ⟨a, b, c, d, hs, ha, hb, hc, hd⟩ := h
  refine ⟨a, b, c, d, hs, hpq a _ ?_ ha, hpq b _ ?_ hb, hpq c _ ?_ hc, hpq d _ ?_ hd⟩ <;>
  · intro x hx
    rw [hs]
    simp [hx]

theorem Quad.octets {s : List Char} {ip : Ipv4} (h : Quad s ip) : Dotted Octet s ip :=
  h.imp fun part _ _ hnum => ⟨part, hnum, .inl rfl⟩

/-- A dotted quad consists of digits and dots. -/
theorem Quad.plus_notMem {s : List Char} {ip : Ipv4} (h : Quad s ip) : '+' ∉ s := by
  obtain ⟨a, b, c, d, rfl, ha, hb, hc, hd⟩ := h
  have hno {part : List Char} {n : Nat} (hnum : Numeral part n) : '+' ∉ part :=
    hnum.notMem (by decide)
  simp [hno ha, hno hb, hno hc, hno hd]

theorem quad_fmt (ip : Ipv4) : Quad (fmt ip) ip :=
  ⟨_, _, _, _, rfl, numeral_toDigits _, numeral_toDigits _, numeral_toDigits _, numeral_toDigits _⟩

/-- What `fmt` prints is read back. -/
theorem parseIp_fmt (ip : Ipv4) : parseIp (fmt ip) = some ip :=
  parseIp_eq_some.mpr (quad_fmt ip).octets

/-- **The parser and the dotted quads.** For every text: the parser accepts it, as an address,
    exactly if it is a dotted quad with that address, and it reads back what `fmt` prints, unless
    the text is an address with a plus sign before one of its octets. -/
theorem parseIp_quad_iff (s : List Char) :
    ((∀ ip, parseIp s = some ip ↔ Quad s ip) ∧ ∀ ip, parseIp (fmt ip) = some ip) ↔ ¬ Signed s := by
  constructor
  · intro ⟨hexact, _⟩ ⟨hplus, ip, hip⟩
    exact ((hexact ip).mp (parseIp_eq_some.mpr hip)).plus_notMem hplus
  · intro hsigned
    refine ⟨fun ip => ?_, parseIp_fmt⟩
    rw [parseIp_eq_some]
    constructor
    · intro hip
      have hplus : '+' ∉ s := fun hmem => hsigned ⟨hmem, ip, hip⟩
      exact hip.imp fun part b hsub hpart => hpart.numeral fun hmem => hplus (hsub _ hmem)
    · exact Quad.octets

/-- `ping +1.2.3.4` is taken for `ping 1.2.3.4`. -/
theorem parseIp_plus :
    parseIp ['+', '1', '.', '2', '.', '3', '.', '4'] = some #v[1#8, 2#8, 3#8, 4#8] ∧
      ¬ Quad ['+', '1', '.', '2', '.', '3', '.', '4'] #v[1#8, 2#8, 3#8, 4#8] := by
  refine ⟨by decide, fun hquad => ?_⟩
  exact hquad.plus_notMem List.mem_cons_self

end SimpleLinux.Shell
