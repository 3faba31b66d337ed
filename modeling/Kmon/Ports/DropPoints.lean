import Kmon.Ports.TcpdropCollector

/-!
# What the points of dropped packets say

`bufferEventV4` and `bufferEventV6` (`src/collector/tcpdrop.go`) are the same function,
written twice; the second writes the source port where the destination port belongs.
`exportedAlike_iff` says that their points are alike exactly when the ports are equal.

`flag2str` writes the names of the flags of the TCP header and leaves out ACK, though
`TCPHeaderACK` is declared.  A point of an IPv4 packet therefore determines everything in
the event but this bit (`sameRecord_iff`), and `recoverable_iff` says when it is enough.
-/

namespace Kmon.Ports.DropPoints

open Kmon.Verified
open Kmon.Ports.Config
open Kmon.Ports.Points
open Kmon.Ports.Stacks
open Kmon.Ports.TcpdropCollector

/-! ## Two families -/

/-- The two events agree on all but the addresses. -/
structure SamePacket (e₄ : DropPackV4) (e₆ : DropPackV6) : Prop where
  PID : e₄.PID = e₆.PID
  StackID : e₄.StackID = e₆.StackID
  UserStackID : e₄.UserStackID = e₆.UserStackID
  State : e₄.State = e₆.State
  TCPflags : e₄.TCPflags = e₆.TCPflags
  SPort : e₄.SPort = e₆.SPort
  DPort : e₄.DPort = e₆.DPort

/-- The points differ in the addresses, each with the port that belongs to it, and in the
time. -/
structure ExportedAlike (e₄ : DropPackV4) (e₆ : DropPackV6) (p₄ p₆ : ExportData) : Prop where
  name : p₄.Name = p₆.Name
  tagKeys : p₄.Tags.keys = p₆.Tags.keys
  fieldKeys : p₄.Fields.keys = p₆.Fields.keys
  tags : ∀ tag, tag ≠ "source" → tag ≠ "destination" → p₄.Tags.lookup tag = p₆.Tags.lookup tag
  fields : ∀ field, field ≠ "timestamp" → p₄.Fields.lookup field = p₆.Fields.lookup field
  source₄ : p₄.Tags.lookup "source" =
    some (ipString (uint32ToIP .littleEndian e₄.SAddr) ++ ":" ++ sprint e₄.SPort)
  destination₄ : p₄.Tags.lookup "destination" =
    some (ipString (uint32ToIP .littleEndian e₄.DAddr) ++ ":" ++ sprint e₄.DPort)
  source₆ : p₆.Tags.lookup "source" = some (ip16String e₆.SAddr ++ ":" ++ sprint e₆.SPort)
  destination₆ : p₆.Tags.lookup "destination" =
    some (ip16String e₆.DAddr ++ ":" ++ sprint e₆.DPort)

theorem lookup_dropTags (containerName : String) (pid : BitVec 32)
    (source destination tag : String) :
    (dropTags containerName pid source destination).lookup tag =
      if tag = "container" ∧ containerName ≠ "" then some containerName
      else if tag = "destination" then some destination
      else if tag = "source" then some source
      else if tag = "pid" then some (sprint pid)
      else none := by
  rw [dropTags, lookup_container, GoMap.lookup_insert_ite, GoMap.lookup_insert_ite,
    GoMap.lookup_insert_ite, Finmap.lookup_empty]

section Points

variable {ksym : BitVec 64 → String} {stackMap : StackTable} {conf : ColTcpdrop}
  {containerName : String} {now now' : Time}

theorem lookup_dropFields {state flags : BitVec 8} {stackID userStackID : BitVec 32}
    {field : String} (hfield : field ≠ "timestamp") :
    (dropFields ksym stackMap now state flags stackID userStackID).lookup field =
      (dropFields ksym stackMap now' state flags stackID userStackID).lookup field := by
  simp only [dropFields, stackFields, lookup_addStack, GoMap.lookup_insert_ite, hfield,
    if_false]

theorem keys_dropFields {state flags : BitVec 8} {stackID userStackID : BitVec 32} :
    (dropFields ksym stackMap now state flags stackID userStackID).keys =
      (dropFields ksym stackMap now' state flags stackID userStackID).keys := by
  refine GoMap.keys_eq_of_isSome fun field => ?_
  by_cases hfield : field = "timestamp"
  · subst hfield
    simp [dropFields, stackFields, lookup_addStack]
  · rw [lookup_dropFields hfield]

/-- The tags have the same keys. -/
theorem keys_dropTags {pid : BitVec 32} {source destination source' destination' : String} :
    (dropTags containerName pid source destination).keys =
      (dropTags containerName pid source' destination').keys := by
  refine GoMap.keys_eq_of_isSome fun tag => ?_
  rw [lookup_dropTags, lookup_dropTags]
  split
  · rfl
  · split
    · rfl
    · split <;> rfl

end Points

/-- **The two functions export alike exactly the packets whose ports are equal.** -/
theorem exportedAlike_iff (ksym : BitVec 64 → String) (stackMap : StackTable)
    (conf : ColTcpdrop) (containerName : BitVec 32 → String) (now now' : Time)
    (e₄ : DropPackV4) (e₆ : DropPackV6) (hsame : SamePacket e₄ e₆) :
    ExportedAlike e₄ e₆ (pointV4 ksym stackMap conf (containerName e₄.PID) now e₄)
        (pointV6 ksym stackMap conf (containerName e₆.PID) now' e₆) ↔
      e₄.SPort = e₄.DPort := by
  have hfields : dropFields ksym stackMap now' e₆.State e₆.TCPflags e₆.StackID e₆.UserStackID =
      dropFields ksym stackMap now' e₄.State e₄.TCPflags e₄.StackID e₄.UserStackID := by
    rw [hsame.State, hsame.TCPflags, hsame.StackID, hsame.UserStackID]
  have hdestination : (pointV6 ksym stackMap conf (containerName e₆.PID) now' e₆).Tags.lookup
      "destination" = some (ip16String e₆.DAddr ++ ":" ++ sprint e₆.SPort) := by
    rw [pointV6, lookup_dropTags, if_neg (by simp), if_pos rfl]
  constructor
  · intro halike
    have hshown := halike.destination₆
    rw [hdestination, Option.some.injEq, String.append_right_inj] at hshown
    rw [hsame.SPort, hsame.DPort]
    exact sprint_inj hshown
  · intro hports
    refine ⟨rfl, ?_, ?_, fun tag hsource hdest => ?_, fun field hfield => ?_, ?_, ?_, ?_, ?_⟩
    · rw [pointV4, pointV6, ← hsame.PID]
      exact keys_dropTags
    · rw [pointV4, pointV6, hfields]
      exact keys_dropFields
    · rw [pointV4, pointV6, lookup_dropTags, lookup_dropTags, hsame.PID]
      simp only [hsource, hdest, if_false]
    · rw [pointV4, pointV6, hfields]
      exact lookup_dropFields hfield
    · rw [pointV4, lookup_dropTags, if_neg (by simp), if_neg (by simp), if_pos rfl, endpoint]
    · rw [pointV4, lookup_dropTags, if_neg (by simp), if_pos rfl, endpoint]
    · rw [pointV6, lookup_dropTags, if_neg (by simp), if_neg (by simp), if_pos rfl]
    · rw [hdestination, ← hsame.DPort, ← hports, hsame.SPort]

/-- A packet from port 179 to port 179. -/
theorem exportedAlike_equal_ports :
    let e₄ : DropPackV4 := ⟨7, 0, 0, 1, 0x02, 179, 179, 0x0100007F, 0x0200007F⟩
    let e₆ : DropPackV6 := ⟨7, 0, 0, 1, 0x02, 179, 179, 1, 2⟩
    let conf : ColTcpdrop := ⟨"tcpdrop", 1, ListenConfig.zero, ⟨10, "tcpdrop", []⟩⟩
    ExportedAlike e₄ e₆ (pointV4 (fun _ => "") ∅ conf "" 0 e₄)
      (pointV6 (fun _ => "") ∅ conf "" 0 e₆) :=
  (exportedAlike_iff (fun _ => "") ∅ ⟨"tcpdrop", 1, ListenConfig.zero, ⟨10, "tcpdrop", []⟩⟩
    (fun _ => "") 0 0 ⟨7, 0, 0, 1, 0x02, 179, 179, 0x0100007F, 0x0200007F⟩
    ⟨7, 0, 0, 1, 0x02, 179, 179, 1, 2⟩ ⟨rfl, rfl, rfl, rfl, rfl, rfl, rfl⟩).2 rfl

/-- A packet from port 443 to port 51000: the IPv6 point shows port 443 twice. -/
theorem destination_port_lost :
    let e₄ : DropPackV4 := ⟨7, 0, 0, 1, 0x02, 443, 51000, 0x0100007F, 0x0200007F⟩
    let e₆ : DropPackV6 := ⟨7, 0, 0, 1, 0x02, 443, 51000, 1, 2⟩
    let conf : ColTcpdrop := ⟨"tcpdrop", 1, ListenConfig.zero, ⟨10, "tcpdrop", []⟩⟩
    SamePacket e₄ e₆ ∧ ¬ ExportedAlike e₄ e₆ (pointV4 (fun _ => "") ∅ conf "" 0 e₄)
      (pointV6 (fun _ => "") ∅ conf "" 0 e₆) := by
  intro e₄ e₆ conf
  refine ⟨⟨rfl, rfl, rfl, rfl, rfl, rfl, rfl⟩, fun halike => ?_⟩
  have hshown := halike.destination₆
  rw [pointV6, lookup_dropTags, if_neg (by simp), if_pos rfl, Option.some.injEq,
    String.append_right_inj] at hshown
  revert hshown
  decide

/-! ## What a point tells -/

/-- `TCPHeaderFIN` to `TCPHeaderCWR`, with the names that `flag2str` writes. -/
def headerFlags : List (BitVec 8 × String) :=
  [(0x01, "FIN"), (0x02, "SYN"), (0x04, "RST"), (0x08, "PSH"), (0x10, "ACK"), (0x20, "URG"),
    (0x40, "ECE"), (0x80, "CWR")]

/-- The parts of a text that `strings.Join(parts, "|")` has made. -/
def parts (text : String) : List String := (text.split '|').toList.map (·.copy)

/-- The text lists every flag that is set. -/
def ListsFlags (flags : BitVec 8) (text : String) : Prop :=
  ∀ f ∈ headerFlags, flags &&& f.1 ≠ 0 → f.2 ∈ parts text

/-- The point shows a text that lists the flags of the packet. -/
def FlagShown (e : DropPackV4) (p : ExportData) : Prop :=
  ∃ text, p.Fields.lookup "flag" = some (.string text) ∧ ListsFlags e.TCPflags text

/-- The points have the same tags and the same flags and state. -/
structure SameRecord (p p' : ExportData) : Prop where
  tags : p.Tags = p'.Tags
  flag : p.Fields.lookup "flag" = p'.Fields.lookup "flag"
  state : p.Fields.lookup "state" = p'.Fields.lookup "state"

/-- The events agree on everything but the flags and the ids of the stacks. -/
structure AgreeButFlags (e e' : DropPackV4) : Prop where
  PID : e.PID = e'.PID
  SAddr : e.SAddr = e'.SAddr
  SPort : e.SPort = e'.SPort
  DAddr : e.DAddr = e'.DAddr
  DPort : e.DPort = e'.DPort
  State : e.State = e'.State

/-- Two events with equal records agree, and the text of either lists its flags. -/
structure Recoverable (ksym : BitVec 64 → String) (stackMap : StackTable) (conf : ColTcpdrop)
    (containerName : BitVec 32 → String) (now now' : Time) (e e' : DropPackV4) : Prop where
  agree : SameRecord (pointV4 ksym stackMap conf (containerName e.PID) now e)
      (pointV4 ksym stackMap conf (containerName e'.PID) now' e') →
    AgreeButFlags e e' ∧ e.TCPflags = e'.TCPflags
  lists : FlagShown e (pointV4 ksym stackMap conf (containerName e.PID) now e)
  lists' : FlagShown e' (pointV4 ksym stackMap conf (containerName e'.PID) now' e')

/-! ## Flags and states -/

theorem flagNames_parts : ∀ f ∈ flagNames, '|' ∉ f.2.toList ∧ f.2 ≠ "" := by
  decide

/-- The names that `flag2str` joins can be read back. -/
theorem filter_flagNames_part (flags : BitVec 8) :
    ∀ s ∈ (flagNames.filter fun f => flags &&& f.1 ≠ 0).map Prod.snd,
      '|' ∉ s.toList ∧ s ≠ "" := by
  intro s hs
  obtain ⟨f, hf, rfl⟩ := List.mem_map.1 hs
  exact flagNames_parts f (List.mem_filter.1 hf).1

/-- The flags that `flag2str` tests make up all but ACK. -/
theorem foldl_flagNames : ∀ flags : BitVec 8,
    (flagNames.filter fun f => flags &&& f.1 ≠ 0).foldl (fun b f => b ||| f.1) 0 =
      flags &&& 0xEF := by
  decide

theorem flagNames_inj : ∀ f ∈ flagNames, ∀ f' ∈ flagNames, f.2 = f'.2 → f = f' := by
  decide

/-- A flag that is tested is named if it is set. -/
theorem mem_filter_flagNames {flags : BitVec 8} {f : BitVec 8 × String} (hf : f ∈ flagNames) :
    f.2 ∈ (flagNames.filter fun f => flags &&& f.1 ≠ 0).map Prod.snd ↔ flags &&& f.1 ≠ 0 := by
  rw [List.mem_map]
  constructor
  · rintro ⟨f', hf', hname⟩
    obtain ⟨hmem, hset⟩ := List.mem_filter.1 hf'
    rw [flagNames_inj f' hmem f hf hname] at hset
    exact of_decide_eq_true hset
  · intro hset
    exact ⟨f, List.mem_filter.2 ⟨hf, decide_eq_true hset⟩, rfl⟩

/-- The text of the flags tells all of them but ACK. -/
theorem flag2str_eq_iff {flags flags' : BitVec 8} :
    flag2str flags = flag2str flags' ↔ flags &&& 0xEF = flags' &&& 0xEF := by
  constructor
  · intro htext
    have hnames := Text.intercalate_inj_of_ne_empty (filter_flagNames_part flags)
      (filter_flagNames_part flags') htext
    rw [← foldl_flagNames, ← foldl_flagNames]
    congr 1
    refine List.filter_congr fun f hf => decide_eq_decide.2 ?_
    rw [← mem_filter_flagNames hf, hnames, mem_filter_flagNames hf]
  · intro hmask
    have hbits : ∀ flags : BitVec 8, ∀ f ∈ flagNames, flags &&& f.1 = flags &&& 0xEF &&& f.1 := by
      intro flags f hf
      have hsub : ∀ f ∈ flagNames, (0xEF : BitVec 8) &&& f.1 = f.1 := by decide
      rw [BitVec.and_assoc, hsub f hf]
    have hfilter : (flagNames.filter fun f => flags &&& f.1 ≠ 0) =
        flagNames.filter fun f => flags' &&& f.1 ≠ 0 := by
      refine List.filter_congr fun f hf => ?_
      rw [hbits flags f hf, hbits flags' f hf, hmask]
    rw [flag2str, flag2str, hfilter]

/-- The parts of a text of flags are the names in it, or the empty text. -/
theorem mem_parts_flag2str {flags : BitVec 8} {s : String} (hs : s ≠ "") :
    s ∈ parts (flag2str flags) ↔
      s ∈ (flagNames.filter fun f => flags &&& f.1 ≠ 0).map Prod.snd := by
  have hparts := String.toList_split_intercalate
    fun s hs => (filter_flagNames_part flags s hs).1
  have hflag : parts (flag2str flags) =
      if (flagNames.filter fun f => flags &&& f.1 ≠ 0).map Prod.snd = [] then [""]
      else (flagNames.filter fun f => flags &&& f.1 ≠ 0).map Prod.snd := hparts
  rw [hflag]
  split
  · rename_i hnil
    rw [hnil]
    simpa using hs
  · exact Iff.rfl

/-- The text lists its flags exactly when ACK is not one of them. -/
theorem listsFlags_iff (flags : BitVec 8) :
    ListsFlags flags (flag2str flags) ↔ flags &&& 0x10 = 0 := by
  constructor
  · intro hlists
    by_contra hack
    have hmem := (mem_parts_flag2str (by decide)).1 (hlists (0x10, "ACK") (by decide) hack)
    obtain ⟨f, hf, hname⟩ := List.mem_map.1 hmem
    have hnone : ∀ f ∈ flagNames, f.2 ≠ "ACK" := by decide
    exact hnone f (List.mem_filter.1 hf).1 hname
  · intro hack f hf hset
    have hrest : ∀ f ∈ headerFlags, f.1 ≠ 0x10 → f ∈ flagNames ∧ f.2 ≠ "" := by decide
    obtain ⟨hmem, hne⟩ := hrest f hf fun heq => hset (heq ▸ hack)
    exact (mem_parts_flag2str hne).2 ((mem_filter_flagNames hmem).2 hset)

theorem tcpState_inj {state state' : BitVec 8} (hstate : tcpState state ≠ none)
    (h : tcpState state = tcpState state') : state = state' := by
  have hknown : ∀ state, tcpState state ≠ none → state.toNat < 13 := by decide
  have hinj : ∀ a < 13, ∀ b < 13,
      tcpState (BitVec.ofNat 8 a) = tcpState (BitVec.ofNat 8 b) → a = b := by decide
  apply BitVec.eq_of_toNat_eq
  refine hinj _ (hknown state hstate) _ (hknown state' (h ▸ hstate)) ?_
  rw [BitVec.ofNat_toNat, BitVec.ofNat_toNat, BitVec.setWidth_eq, BitVec.setWidth_eq]
  exact h

/-! ## Two events -/

section Recover

variable {ksym : BitVec 64 → String} {stackMap : StackTable} {conf : ColTcpdrop}
  {containerName : BitVec 32 → String} {now now' : Time} {e e' : DropPackV4}

theorem lookup_flag :
    (pointV4 ksym stackMap conf (containerName e.PID) now e).Fields.lookup "flag" =
      some (.string (flag2str e.TCPflags)) := by
  simp [pointV4, dropFields, stackFields, lookup_addStack]

theorem lookup_state :
    (pointV4 ksym stackMap conf (containerName e.PID) now e).Fields.lookup "state" =
      some (.string ((tcpState e.State).getD "UNKNOWN")) := by
  simp [pointV4, dropFields, stackFields, lookup_addStack]

theorem flagShown_iff :
    FlagShown e (pointV4 ksym stackMap conf (containerName e.PID) now e) ↔
      e.TCPflags &&& 0x10 = 0 := by
  rw [← listsFlags_iff]
  constructor
  · rintro ⟨text, htext, hlists⟩
    rw [lookup_flag] at htext
    cases htext
    exact hlists
  · exact fun hlists => ⟨_, lookup_flag, hlists⟩

/-- A record tells everything of an event but the ACK bit. -/
theorem sameRecord_iff (hstate : tcpState e.State ≠ none) (hstate' : tcpState e'.State ≠ none) :
    SameRecord (pointV4 ksym stackMap conf (containerName e.PID) now e)
        (pointV4 ksym stackMap conf (containerName e'.PID) now' e') ↔
      AgreeButFlags e e' ∧ e.TCPflags &&& 0xEF = e'.TCPflags &&& 0xEF := by
  constructor
  · intro hsame
    have htag := fun tag => congrArg (Finmap.lookup tag) hsame.tags
    have hpid := htag "pid"
    have hsource := htag "source"
    have hdestination := htag "destination"
    simp only [pointV4, lookup_dropTags, String.reduceEq, false_and, if_false, if_true,
      Option.some.injEq] at hpid hsource hdestination
    have hflag := hsame.flag
    have hstates := hsame.state
    rw [lookup_flag, lookup_flag, Option.some.injEq, Value.string.injEq, flag2str_eq_iff] at hflag
    rw [lookup_state, lookup_state, Option.some.injEq, Value.string.injEq] at hstates
    obtain ⟨name, hname⟩ := Option.ne_none_iff_exists'.1 hstate
    obtain ⟨name', hname'⟩ := Option.ne_none_iff_exists'.1 hstate'
    rw [hname, hname', Option.getD_some, Option.getD_some] at hstates
    obtain ⟨hsaddr, hsport⟩ := endpoint_inj hsource
    obtain ⟨hdaddr, hdport⟩ := endpoint_inj hdestination
    refine ⟨⟨sprint_inj hpid, hsaddr, hsport, hdaddr, hdport, tcpState_inj hstate ?_⟩, hflag⟩
    rw [hname, hname', hstates]
  · rintro ⟨hagree, hmask⟩
    refine ⟨?_, ?_, ?_⟩
    · rw [pointV4, pointV4, hagree.PID, hagree.SAddr, hagree.SPort, hagree.DAddr, hagree.DPort]
    · rw [lookup_flag, lookup_flag, flag2str_eq_iff.2 hmask]
    · rw [lookup_state, lookup_state, hagree.State]

end Recover

/-- The bit that is missing. -/
theorem eq_of_mask_eq {flags flags' : BitVec 8} (hmask : flags &&& 0xEF = flags' &&& 0xEF)
    (hack : flags &&& 0x10 = 0) (hack' : flags' &&& 0x10 = 0) : flags = flags' := by
  have hsplit : ∀ flags : BitVec 8, flags = flags &&& 0xEF ||| flags &&& 0x10 := by decide
  rw [hsplit flags, hsplit flags', hmask, hack, hack']

/-- **The events of two IPv4 packets can be recovered from their records, and the texts
list their flags, exactly when neither packet carries ACK.** -/
theorem recoverable_iff (ksym : BitVec 64 → String) (stackMap : StackTable)
    (conf : ColTcpdrop) (containerName : BitVec 32 → String) (now now' : Time)
    (e e' : DropPackV4) (hstate : tcpState e.State ≠ none)
    (hstate' : tcpState e'.State ≠ none) :
    Recoverable ksym stackMap conf containerName now now' e e' ↔
      e.TCPflags &&& 0x10 = 0 ∧ e'.TCPflags &&& 0x10 = 0 := by
  constructor
  · intro hrec
    exact ⟨flagShown_iff.1 hrec.lists, flagShown_iff.1 hrec.lists'⟩
  · rintro ⟨hack, hack'⟩
    refine ⟨fun hsame => ?_, flagShown_iff.2 hack, flagShown_iff.2 hack'⟩
    obtain ⟨hagree, hmask⟩ := (sameRecord_iff hstate hstate').1 hsame
    exact ⟨hagree, eq_of_mask_eq hmask hack hack'⟩

/-- Two packets with FIN and PSH. -/
theorem recoverable_fin_psh :
    let e : DropPackV4 := ⟨7, 0, 0, 1, 0x01, 443, 51000, 0x0100007F, 0x0200007F⟩
    let e' : DropPackV4 := ⟨7, 0, 0, 4, 0x08, 443, 51000, 0x0100007F, 0x0200007F⟩
    Recoverable (fun _ => "") ∅ ⟨"tcpdrop", 1, ListenConfig.zero, ⟨10, "tcpdrop", []⟩⟩
      (fun _ => "") 0 0 e e' :=
  (recoverable_iff (fun _ => "") ∅ ⟨"tcpdrop", 1, ListenConfig.zero, ⟨10, "tcpdrop", []⟩⟩
    (fun _ => "") 0 0 ⟨7, 0, 0, 1, 0x01, 443, 51000, 0x0100007F, 0x0200007F⟩
    ⟨7, 0, 0, 4, 0x08, 443, 51000, 0x0100007F, 0x0200007F⟩ (by decide) (by decide)).2 (by decide)

/-- A packet with SYN and one with SYN and ACK have the same record. -/
theorem ack_not_recorded :
    let e : DropPackV4 := ⟨7, 0, 0, 1, 0x02, 443, 51000, 0x0100007F, 0x0200007F⟩
    let e' : DropPackV4 := ⟨7, 0, 0, 1, 0x12, 443, 51000, 0x0100007F, 0x0200007F⟩
    let conf : ColTcpdrop := ⟨"tcpdrop", 1, ListenConfig.zero, ⟨10, "tcpdrop", []⟩⟩
    tcpState e.State ≠ none ∧ tcpState e'.State ≠ none ∧
      ¬ Recoverable (fun _ => "") ∅ conf (fun _ => "") 0 0 e e' := by
  intro e e' conf
  have hstate : tcpState e.State ≠ none := by decide
  have hstate' : tcpState e'.State ≠ none := by decide
  refine ⟨hstate, hstate', fun hrec => ?_⟩
  have hsame := (@sameRecord_iff (fun _ => "") ∅ conf (fun _ => "") 0 0 e e' hstate hstate').2
    ⟨⟨rfl, rfl, rfl, rfl, rfl, rfl⟩, by decide⟩
  exact absurd (hrec.agree hsame).2 (by decide)

end Kmon.Ports.DropPoints
