import Kmon.Verified.Layout

/-!
# The record declarations of the probes and of the collectors

Each record that crosses the border between a probe (`release/bcc/*.c`) and its
collector (`src/collector/*.go`) is declared twice.  The declarations are copied
field by field under the names of the source.  The C structs are all packed; the
Go structs follow natural alignment, which is what the compiler for amd64 does.
`int` and `uint32` are words of four bytes here, `char[n]` and `[n]byte` arrays.
-/

namespace Kmon.Ports.Records

open Kmon.Verified.Layout

/-! ## Perf events -/

/-- `struct msg_event` (tcpreq.c). -/
def msgEvent : Decl :=
  [("cur_ts", .uint 8), ("type", .uint 4), ("pid", .uint 4), ("peer_addr", .uint 4),
    ("my_addr", .uint 4), ("peer_port", .uint 2), ("my_port", .uint 2)]

/-- `tcpEvent` (tcpreq.go). -/
def tcpEvent : Decl :=
  [("CurTs", .uint 8), ("Type", .uint 4), ("PID", .uint 4), ("PeerAddr", .uint 4),
    ("MyAddr", .uint 4), ("PeerPort", .uint 2), ("MyPort", .uint 2)]

/-- `struct ipv4_data_t` (tcpdrop.c). -/
def ipv4DataT : Decl :=
  [("pid", .uint 4), ("stack_id", .uint 4), ("ustack_id", .uint 4), ("state", .uint 1),
    ("tcpflags", .uint 1), ("sport", .uint 2), ("dport", .uint 2), ("saddr", .uint 4),
    ("daddr", .uint 4)]

/-- `dropPackV4` (tcpdrop.go). -/
def dropPackV4 : Decl :=
  [("PID", .uint 4), ("StackID", .uint 4), ("UserStackID", .uint 4), ("State", .uint 1),
    ("TCPflags", .uint 1), ("SPort", .uint 2), ("DPort", .uint 2), ("SAddr", .uint 4),
    ("DAddr", .uint 4)]

/-- `struct ipv6_data_t` (tcpdrop.c). -/
def ipv6DataT : Decl :=
  [("pid", .uint 4), ("stack_id", .uint 4), ("ustack_id", .uint 4), ("state", .uint 1),
    ("tcpflags", .uint 1), ("sport", .uint 2), ("dport", .uint 2), ("saddr", .bytes 16),
    ("daddr", .bytes 16)]

/-- `dropPackV6` (tcpdrop.go). -/
def dropPackV6 : Decl :=
  [("PID", .uint 4), ("StackID", .uint 4), ("UserStackID", .uint 4), ("State", .uint 1),
    ("TCPflags", .uint 1), ("SPort", .uint 2), ("DPort", .uint 2), ("SAddr", .bytes 16),
    ("DAddr", .bytes 16)]

/-- `struct warn_event_t` (offcpu.c). -/
def warnEventT : Decl :=
  [("pid", .uint 4), ("tgid", .uint 4), ("t_start", .uint 4), ("t_end", .uint 4)]

/-- `tcpWarnEvent` (offcpu.go). -/
def tcpWarnEvent : Decl :=
  [("PID", .uint 4), ("TGID", .uint 4), ("StartTime", .uint 4), ("EndTime", .uint 4)]

/-! ## Control records -/

/-- `struct control` of biostat.c. -/
def biostatControl : Decl := [("verbose", .uint 4), ("bin_scale", .uint 8)]

/-- `bioControlMap` (biostat.go). -/
def bioControlMap : Decl := [("Verbose", .uint 4), ("BinScale", .uint 8)]

/-- `struct control` of offcpu.c. -/
def offcpuControl : Decl :=
  [("verbose", .uint 4), ("state", .uint 4), ("start", .uint 4), ("end", .uint 4)]

/-- `offcpuControlMap` (offcpu.go). -/
def offcpuControlMap : Decl :=
  [("Verbose", .uint 4), ("State", .uint 4), ("TimeStart", .uint 4), ("TimeEnd", .uint 4)]

/-- `struct control` of tcpreq.c. -/
def tcpreqControl : Decl := [("verbose", .uint 4)]

/-- `tcpControlMap` (tcpreq.go). -/
def tcpControlMap : Decl := [("Verbose", .uint 4)]

/-- `struct control` of tcpdrop.c. -/
def tcpdropControl : Decl := [("verbose", .uint 4)]

/-- `tcpdropControlMap` (tcpdrop.go). -/
def tcpdropControlMap : Decl := [("Verbose", .uint 4)]

/-! ## Keys and values of the aggregation maps -/

/-- `struct info_t` (biostat.c), with the `DISK_NAME_LEN` of the kernel, 32. -/
def infoT : Decl := [("pid", .uint 4), ("rwflag", .uint 4), ("disk", .bytes 32)]

/-- `bioKey` (biostat.go). -/
def bioKey : Decl := [("PID", .uint 4), ("RWFlag", .uint 8), ("Name", .bytes 32)]

/-- `struct val_t` (biostat.c). -/
def valT : Decl := [("bytes", .uint 8), ("ns", .uint 8)]

/-- `bioVal` (biostat.go). -/
def bioVal : Decl := [("Bytes", .uint 8), ("Ns", .uint 8)]

/-- `disk_key_t` (biostat.c). -/
def diskKeyT : Decl :=
  [("slot", .uint 4), ("pid", .uint 4), ("flags", .uint 8), ("disk", .bytes 32)]

/-- `bioHistKey` (biostat.go). -/
def bioHistKey : Decl :=
  [("Slot", .uint 4), ("PID", .uint 4), ("RWFlag", .uint 8), ("Name", .bytes 32)]

/-- `struct key_t` (offcpu.c). -/
def keyT : Decl :=
  [("pid", .uint 4), ("tgid", .uint 4), ("user_stack_id", .uint 4), ("kernel_stack_id", .uint 4),
    ("name", .bytes 32)]

/-- `offcpuKey` (offcpu.go). -/
def offcpuKey : Decl :=
  [("PID", .uint 4), ("TGID", .uint 4), ("UserStackID", .uint 4), ("StackID", .uint 4),
    ("Name", .bytes 32)]

/-- `struct val` (fcount.c). -/
def fcountVal : Decl := [("count", .uint 8), ("ret_count", .uint 8)]

/-- The anonymous value struct of fcount.go. -/
def fcountGoVal : Decl := [("Count", .uint 8), ("Retcount", .uint 8)]

/-- A `u32` on its own, such as the key of fcount's `data`. -/
def u32 : Decl := [("", .uint 4)]

/-- A `u64` on its own, such as the value of `dist`. -/
def u64 : Decl := [("", .uint 8)]

end Kmon.Ports.Records
