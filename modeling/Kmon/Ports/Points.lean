import Kmon.Verified.GoMap
import Kmon.Verified.Text
import Kmon.Ports.Config

/-!
# The points that collectors hand to exporters

`model.ExportData` (`src/model/exporter.go`) and what the collectors write into
it: the values of its fields, and the text of an address.  `Additional` is never
used and is left out.
-/

namespace Kmon.Ports.Points

open Kmon.Verified
open Kmon.Ports.Config

/-- A `time.Time`, in nanoseconds. -/
abbrev Time := Int

/-- The values that occur in `Fields`. -/
inductive Value where
  | time (t : Time)
  | int (n : BitVec 64)
  | int64 (n : BitVec 64)
  | uint32 (n : BitVec 32)
  | string (text : String)
  deriving DecidableEq, Repr

/-- `model.ExportData`. -/
structure ExportData where
  Name : String
  Tags : GoMap String String
  Fields : GoMap String Value
  deriving DecidableEq

/-- `model.ExportDataWarpper`. -/
structure ExportDataWarpper where
  Data : List ExportData
  Exporter : List ExporterConfig
  deriving DecidableEq

/-- The tags of a point after `if containerName != "" { Tags["container"] = containerName }`. -/
theorem lookup_container (tags : GoMap String String) (containerName tag : String) :
    (if containerName ≠ "" then tags.insert "container" containerName else tags).lookup tag =
      if tag = "container" ∧ containerName ≠ "" then some containerName else tags.lookup tag := by
  by_cases hname : containerName = ""
  · rw [if_neg (not_not_intro hname), if_neg fun h => h.2 hname]
  · rw [if_pos hname, GoMap.lookup_insert_ite]
    simp only [ne_eq, hname, not_false_eq_true, and_true]

/-! ## Addresses -/

/-- `nativeEndian`. -/
inductive ByteOrder where
  | littleEndian
  | bigEndian
  deriving DecidableEq, Repr

/-- `byte(intIP >> n & 0xFF)`. -/
def byteAt (intIP : BitVec 32) (n : Nat) : BitVec 8 := ((intIP >>> n) &&& 0xFF#32).setWidth 8

/-- `UInt32ToIP`: the four bytes it gives to `net.IPv4`. -/
def uint32ToIP (nativeEndian : ByteOrder) (intIP : BitVec 32) : List (BitVec 8) :=
  match nativeEndian with
  | .bigEndian => [byteAt intIP 24, byteAt intIP 16, byteAt intIP 8, byteAt intIP 0]
  | .littleEndian => [byteAt intIP 0, byteAt intIP 8, byteAt intIP 16, byteAt intIP 24]

/-- `fmt.Sprint` of an unsigned number. -/
def sprint {w : Nat} (n : BitVec w) : String := toString n.toNat

/-- The `%s` of an IPv4 address. -/
def ipString (ip : List (BitVec 8)) : String := ".".intercalate (ip.map sprint)

/-- `fmt.Sprintf("%s:%d", utils.UInt32ToIP(addr), port)` on a little-endian host. -/
def endpoint (addr : BitVec 32) (port : BitVec 16) : String :=
  ipString (uint32ToIP .littleEndian addr) ++ ":" ++ sprint port

/-! ## Reading the texts back -/

theorem sprint_inj {w : Nat} {m n : BitVec w} (h : sprint m = sprint n) : m = n :=
  BitVec.eq_of_toNat_eq (Text.toString_inj h)

theorem toNat_byteAt (intIP : BitVec 32) (n : Nat) :
    (byteAt intIP n).toNat = intIP.toNat / 2 ^ n % 256 := by
  have hmask := Nat.and_two_pow_sub_one_eq_mod (intIP.toNat / 2 ^ n) 8
  unfold byteAt
  rw [BitVec.toNat_setWidth, BitVec.toNat_and, BitVec.toNat_ushiftRight,
    Nat.shiftRight_eq_div_pow]
  show (intIP.toNat / 2 ^ n &&& 2 ^ 8 - 1) % 256 = _
  rw [hmask, Nat.mod_mod]

/-- An address is determined by its bytes. -/
theorem uint32ToIP_inj {a b : BitVec 32}
    (h : uint32ToIP .littleEndian a = uint32ToIP .littleEndian b) : a = b := by
  simp only [uint32ToIP, List.cons.injEq, and_true] at h
  obtain ⟨h₀, h₁, h₂, h₃⟩ := h
  have hbyte : ∀ n, byteAt a n = byteAt b n → a.toNat / 2 ^ n % 256 = b.toNat / 2 ^ n % 256 := by
    intro n hn
    rw [← toNat_byteAt, hn, toNat_byteAt]
  have hb₀ := hbyte 0 h₀
  have hb₁ := hbyte 8 h₁
  have hb₂ := hbyte 16 h₂
  have hb₃ := hbyte 24 h₃
  have ha := a.isLt
  have hb := b.isLt
  apply BitVec.eq_of_toNat_eq
  omega

/-- An IPv4 address is written with digits and dots. -/
theorem not_mem_ipString {c : Char} (hdigit : c.isDigit = false) (hdot : c ≠ '.')
    (ip : List (BitVec 8)) : c ∉ (ipString ip).toList := by
  unfold ipString
  induction ip with
  | nil => simp
  | cons a ip ih =>
      have ha : c ∉ (sprint a).toList := Text.not_mem_toString hdigit a.toNat
      cases ip with
      | nil => simpa using ha
      | cons b ip => simpa [ha, hdot] using ih

theorem ipString_inj {ip ip' : List (BitVec 8)} (hne : ip ≠ []) (hne' : ip' ≠ [])
    (h : ipString ip = ipString ip') : ip = ip' := by
  have hdots : ∀ ip : List (BitVec 8), ∀ s ∈ ip.map sprint, '.' ∉ s.toList := by
    intro ip s hs
    obtain ⟨a, -, rfl⟩ := List.mem_map.1 hs
    exact Text.not_mem_toString rfl a.toNat
  have hmap : ip.map sprint = ip'.map sprint :=
    Text.intercalate_inj (hdots ip) (hdots ip') (by simpa using hne) (by simpa using hne') h
  exact List.map_injective_iff.2 (fun _ _ => sprint_inj) hmap

/-- The address and the port of an endpoint. -/
theorem endpoint_inj {addr addr' : BitVec 32} {port port' : BitVec 16}
    (h : endpoint addr port = endpoint addr' port') : addr = addr' ∧ port = port' := by
  have hjoin : ∀ (addr : BitVec 32) (port : BitVec 16), endpoint addr port =
      (String.singleton ':').intercalate
        [ipString (uint32ToIP .littleEndian addr), sprint port] := by
    intro addr port
    rw [String.intercalate_cons_cons, String.intercalate_singleton]
    rfl
  have hcolon : ∀ (addr : BitVec 32) (port : BitVec 16),
      ∀ s ∈ [ipString (uint32ToIP .littleEndian addr), sprint port], ':' ∉ s.toList := by
    intro addr port s hs
    rcases List.mem_cons.1 hs with rfl | hs
    · exact not_mem_ipString rfl (by decide) _
    · obtain rfl := List.mem_singleton.1 hs
      exact Text.not_mem_toString rfl port.toNat
  rw [hjoin, hjoin] at h
  have hparts := Text.intercalate_inj (hcolon addr port) (hcolon addr' port')
    (List.cons_ne_nil _ _) (List.cons_ne_nil _ _) h
  simp only [List.cons.injEq, and_true] at hparts
  exact ⟨uint32ToIP_inj (ipString_inj (List.cons_ne_nil _ _) (List.cons_ne_nil _ _) hparts.1),
    sprint_inj hparts.2⟩

end Kmon.Ports.Points
