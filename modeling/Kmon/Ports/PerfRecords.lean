import Kmon.Ports.Records

/-!
# Perf events, from the probe to the collector

A probe submits a packed C struct; the collector casts the sample it receives to
a Go struct (`val := **(**tcpEvent)(unsafe.Pointer(&e))` and the like).  The cast
checks no length, so where the Go struct is the longer one it also reads what
follows the record in the sample.

Three of the four pairs of declarations agree on every offset.  `dropPackV4` does
not agree with `ipv4_data_t`: Go aligns `SAddr` to 20 and `DAddr` to 24, while
the probe stores the addresses from 18 and 22 on.  Both addresses are then read
two bytes too late, and `decodes_iff` says when this happens to make no
difference.
-/

namespace Kmon.Ports.PerfRecords

open Kmon.Verified.Layout
open Kmon.Ports.Records

/-- The types of perf records. -/
inductive PerfRecord where
  | tcpEvent
  | dropV4
  | dropV6
  | offcpuWarn
  deriving DecidableEq, Repr

/-- The struct the probe submits. -/
def PerfRecord.cStruct : PerfRecord → Decl
  | .tcpEvent => msgEvent
  | .dropV4 => ipv4DataT
  | .dropV6 => ipv6DataT
  | .offcpuWarn => warnEventT

/-- The struct the collector casts the sample to. -/
def PerfRecord.goStruct : PerfRecord → Decl
  | .tcpEvent => Records.tcpEvent
  | .dropV4 => dropPackV4
  | .dropV6 => dropPackV6
  | .offcpuWarn => tcpWarnEvent

/-- The sample of a record: its bytes, and whatever follows them. -/
def sample (r : PerfRecord) (v : Rec r.cStruct) (after : Mem) : Mem :=
  place packed 0 r.cStruct v after

/-- The fields the collector finds in a sample. -/
def decode (r : PerfRecord) (bytes : Mem) : Rec r.goStruct :=
  read natural 0 r.goStruct bytes

/-- The collector finds the fields the probe stored. -/
def Decodes (r : PerfRecord) (v : Rec r.cStruct) (after : Mem) : Prop :=
  SameFields r.cStruct r.goStruct v (decode r (sample r v after))

/-- An IPv4 address that only repeats the two bytes behind the record. -/
def RepeatsAfter (addr : BitVec (8 * 4)) (after : Mem) : Prop :=
  ∀ k < 4, byteOf addr k = after (26 + k % 2)

/-- The records that reach the collector unharmed. -/
def Unharmed : (r : PerfRecord) → Rec r.cStruct → Mem → Prop
  | .dropV4, (_, _, _, _, _, _, _, saddr, daddr, _), after =>
      RepeatsAfter saddr after ∧ RepeatsAfter daddr after
  | _, _, _ => True

/-! ## The addresses of an IPv4 drop -/

section DropV4

variable (saddr daddr : BitVec (8 * 4)) (after : Mem)

/-- The two addresses as the probe stores them. -/
def addresses : Mem :=
  place packed 18 [("saddr", .uint 4), ("daddr", .uint 4)] (saddr, daddr, ()) after

theorem addresses_saddr {k : Nat} (hk : k < 4) :
    addresses saddr daddr after (18 + k) = byteOf saddr k :=
  place_of_field _ _ hk

theorem addresses_daddr {k : Nat} (hk : k < 4) :
    addresses saddr daddr after (22 + k) = byteOf daddr k :=
  (place_of_rest _ _ (Nat.le_add_right 22 k)).trans (place_of_field _ _ hk)

theorem addresses_after (k : Nat) : addresses saddr daddr after (26 + k) = after (26 + k) :=
  (place_of_rest _ _ (by show 22 ≤ 26 + k; omega)).trans
    (place_of_rest _ _ (Nat.le_add_right 26 k))

/-- Read two bytes too late, the addresses are right only if they and the two bytes behind
them repeat the first two. -/
theorem addresses_shifted_iff :
    (∀ k < 4, addresses saddr daddr after (20 + k) = byteOf saddr k) ∧
        (∀ k < 4, addresses saddr daddr after (24 + k) = byteOf daddr k) ↔
      ∀ k < 10, addresses saddr daddr after (18 + k) =
        addresses saddr daddr after (18 + k % 2) := by
  have hs := fun k hk => addresses_saddr saddr daddr after (k := k) hk
  have hd := fun k hk => addresses_daddr saddr daddr after (k := k) hk
  refine Iff.trans ?_ (shifted_eq_iff (d := 2) _ 18 8 (by decide))
  constructor
  · rintro ⟨hsaddr, hdaddr⟩ k hk
    by_cases hlow : k < 4
    · exact (hsaddr k hlow).trans (hs k hlow).symm
    · have hbyte := (hdaddr (k - 4) (by omega)).trans (hd (k - 4) (by omega)).symm
      rwa [show 24 + (k - 4) = 18 + 2 + k by omega, show 22 + (k - 4) = 18 + k by omega] at hbyte
  · intro h
    constructor
    · exact fun k hk => (h k (by omega)).trans (hs k hk)
    · intro k hk
      have hbyte := h (k + 4) (by omega)
      rw [show 18 + 2 + (k + 4) = 24 + k by omega, show 18 + (k + 4) = 22 + k by omega] at hbyte
      exact hbyte.trans (hd k hk)

/-- So they repeat what is behind them. -/
theorem addresses_read_iff :
    (∀ k < 4, addresses saddr daddr after (20 + k) = byteOf saddr k) ∧
        (∀ k < 4, addresses saddr daddr after (24 + k) = byteOf daddr k) ↔
      RepeatsAfter saddr after ∧ RepeatsAfter daddr after := by
  have hs := fun k hk => addresses_saddr saddr daddr after (k := k) hk
  have hd := fun k hk => addresses_daddr saddr daddr after (k := k) hk
  have ha := addresses_after saddr daddr after
  rw [addresses_shifted_iff]
  constructor
  · intro hperiod
    -- the two bytes behind the addresses are the pattern
    have hafter : ∀ k, addresses saddr daddr after (18 + k % 2) = after (26 + k % 2) := by
      intro k
      have hlast := hperiod (8 + k % 2) (by omega)
      rw [show 18 + (8 + k % 2) = 26 + k % 2 by omega, ha,
        show (8 + k % 2) % 2 = k % 2 by omega] at hlast
      exact hlast.symm
    constructor
    · intro k hk
      rw [← hs k hk, hperiod k (by omega), hafter k]
    · intro k hk
      have hbyte := hperiod (k + 4) (by omega)
      rw [show 18 + (k + 4) = 22 + k by omega, show (k + 4) % 2 = k % 2 by omega] at hbyte
      rw [← hd k hk, hbyte, hafter k]
  · rintro ⟨hsaddr, hdaddr⟩
    have hall : ∀ k < 10, addresses saddr daddr after (18 + k) = after (26 + k % 2) := by
      intro k hk
      by_cases hlow : k < 4
      · rw [hs k hlow, hsaddr k hlow]
      · by_cases hmid : k < 8
        · rw [show 18 + k = 22 + (k - 4) by omega, hd _ (by omega), hdaddr _ (by omega),
            show (k - 4) % 2 = k % 2 by omega]
        · rw [show 18 + k = 26 + k % 2 by omega, ha]
    exact fun k hk => by rw [hall k hk, hall (k % 2) (by omega), Nat.mod_mod]

end DropV4

/-- Of an IPv4 drop, all but the addresses is read where it was stored. -/
theorem decodes_dropV4_iff (v : Rec ipv4DataT) (after : Mem) :
    Decodes .dropV4 v after ↔ Unharmed .dropV4 v after := by
  obtain ⟨pid, stack_id, ustack_id, state, tcpflags, sport, dport, saddr, daddr, -⟩ := v
  refine (sameFields_drop_iff 7 (by decide) _ after).trans ?_
  refine Iff.trans ?_ (addresses_read_iff saddr daddr after)
  exact and_congr (toNat_readWord_eq_iff rfl)
    ((and_iff_left trivial).trans (toNat_readWord_eq_iff rfl))

/-- **A perf record reaches the collector as the probe stored it unless it is an
IPv4 drop, whose addresses are right only if they repeat the two bytes behind
the record.** -/
theorem decodes_iff (r : PerfRecord) (v : Rec r.cStruct) (after : Mem) :
    Decodes r v after ↔ Unharmed r v after := by
  cases r with
  | tcpEvent => exact iff_of_true (sameFields_of_offsets_eq (by decide) v after) trivial
  | dropV4 => exact decodes_dropV4_iff v after
  | dropV6 => exact iff_of_true (sameFields_of_offsets_eq (by decide) v after) trivial
  | offcpuWarn => exact iff_of_true (sameFields_of_offsets_eq (by decide) v after) trivial

/-- A packet from 10.0.0.1:443 to 10.0.0.2:51000 that was dropped: the collector
reports other addresses. -/
theorem dropped_packet_not_decoded :
    ¬ Decodes .dropV4 (4242#32, 0#32, 0#32, 1#8, 0x10#8, 443#16, 51000#16, 0x0100000a#32,
      0x0200000a#32, ()) (fun _ => 0) := by
  rintro ⟨-, -, -, -, -, -, -, hsaddr, -⟩
  exact absurd hsaddr (by decide)

end Kmon.Ports.PerfRecords
