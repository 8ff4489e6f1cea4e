import ETraceDiag.DeepDump
import ETraceDiag.Metrics

/-!
# The rows of a host tick

`WriteHostRow` up to the cgroup tables: the column list of each `INSERT`, the values bound one
after the other, and beside them the field of the snapshot that each column is named after. The
`io_ticks_ms` of a disk is never bound.
-/

namespace ETraceDiag
namespace HostRows

open SqlTable Metrics
open EvidenceStore (bindU64 bindU32 toInt_toInt64_eq_iff)
open DeepDump (cString charOf charOf_injective)
open ProcessTable (ProcessRow)

variable {F : Type}

/-! ## Binding -/

/-- `BindU64`: an invalid value is NULL. -/
def bindValid (x : UInt64) (valid : Bool) : Value F := if valid then bindU64 x else .null

def bindBool (b : Bool) : Value F := bindInt64 (if b then 1 else 0)

/-- `BindText`, and the text of a `char` array: up to the first NUL. -/
def bindCString (s : List UInt8) : Value F := bindText (cString s)

/-- `sqlite3_bind_int` of an `(int)x`. -/
def bindInt (x : UInt32) : Value F := bindInt64 x.toInt32.toInt64

def bindPsi [Double F] (w : PsiWindow F) : List (Value F) :=
  (if w.someValid then [bindDouble w.avg10,bindDouble w.avg60,bindDouble w.avg300]
    else [.null,.null,.null])++
  bindBool w.someValid::
  ((if w.fullValid then [bindDouble w.avg10,bindDouble w.avg60,bindDouble w.avg300]
    else [.null,.null,.null])++
  [bindBool w.fullValid])

def hostCols : List String :=
  ["ts_ns","cu_user","cu_nice","cu_sys","cu_idle","cu_iowait","cu_irq","cu_softirq","cu_steal",
    "cu_guest","cu_guest_nice","load1","load5","load15","nr_running","nr_threads",
    "mem_total_kb","mem_avail_kb","mem_free_kb","buffers_kb","cached_kb","swap_total_kb",
    "swap_free_kb","anon_pages_kb","sreclaimable_kb","shmem_kb","dirty_kb","writeback_kb",
    "commit_limit_kb","committed_as_kb","mem_valid_mask","vm_pgfault","vm_pgmajfault",
    "vm_pswpin","vm_pswpout","vm_pgscan_kswapd","vm_pgscan_direct","vm_pgsteal_kswapd",
    "vm_pgsteal_direct","vm_workingset_refault","vm_nr_dirty","vm_nr_writeback","vm_valid_mask",
    "psi_cpu_s10","psi_cpu_s60","psi_cpu_s300","psi_cpu_s_valid","psi_cpu_f10","psi_cpu_f60",
    "psi_cpu_f300","psi_cpu_f_valid","psi_io_s10","psi_io_s60","psi_io_s300","psi_io_s_valid",
    "psi_io_f10","psi_io_f60","psi_io_f300","psi_io_f_valid","psi_mem_s10","psi_mem_s60",
    "psi_mem_s300","psi_mem_s_valid","psi_mem_f10","psi_mem_f60","psi_mem_f300",
    "psi_mem_f_valid","ctxt","processes","procs_running","procs_blocked"]

def hostBinds [Double F] (s : HostSnapshot F) : List (Value F) :=
  [bindU64 s.tsNs,bindU64 s.total.user,bindU64 s.total.nice,bindU64 s.total.system,
    bindU64 s.total.idle,bindU64 s.total.iowait,bindU64 s.total.irq,bindU64 s.total.softirq,
    bindU64 s.total.steal,bindU64 s.total.guest,bindU64 s.total.guestNice,
    bindDouble s.load.load1,bindDouble s.load.load5,bindDouble s.load.load15,
    bindU32 s.load.nrRunning,bindU32 s.load.nrThreads,
    bindValid s.mem.memTotalKb (bit s.mem.validMask 0),
    bindValid s.mem.memAvailableKb (bit s.mem.validMask 1),
    bindValid s.mem.memFreeKb (bit s.mem.validMask 2),
    bindValid s.mem.buffersKb (bit s.mem.validMask 3),
    bindValid s.mem.cachedKb (bit s.mem.validMask 4),
    bindValid s.mem.swapTotalKb (bit s.mem.validMask 5),
    bindValid s.mem.swapFreeKb (bit s.mem.validMask 6),
    bindValid s.mem.anonPagesKb (bit s.mem.validMask 7),
    bindValid s.mem.sreclaimableKb (bit s.mem.validMask 8),
    bindValid s.mem.shmemKb (bit s.mem.validMask 9),
    bindValid s.mem.dirtyKb (bit s.mem.validMask 10),
    bindValid s.mem.writebackKb (bit s.mem.validMask 11),
    bindValid s.mem.commitLimitKb (bit s.mem.validMask 12),
    bindValid s.mem.committedAsKb (bit s.mem.validMask 13),bindU32 s.mem.validMask,
    bindValid s.vm.pgfault (bit s.vm.validMask 0),
    bindValid s.vm.pgmajfault (bit s.vm.validMask 1),
    bindValid s.vm.pswpin (bit s.vm.validMask 2),
    bindValid s.vm.pswpout (bit s.vm.validMask 3),
    bindValid s.vm.pgscanKswapd (bit s.vm.validMask 4),
    bindValid s.vm.pgscanDirect (bit s.vm.validMask 5),
    bindValid s.vm.pgstealKswapd (bit s.vm.validMask 6),
    bindValid s.vm.pgstealDirect (bit s.vm.validMask 7),
    bindValid s.vm.workingsetRefault (bit s.vm.validMask 8),
    bindValid s.vm.nrDirty (bit s.vm.validMask 9),
    bindValid s.vm.nrWriteback (bit s.vm.validMask 10),bindU32 s.vm.validMask]++
  (bindPsi s.psi.cpu++(bindPsi s.psi.io++(bindPsi s.psi.memory++
  [bindU64 s.ctxt,bindU64 s.processes,bindU64 s.procsRunning,bindU64 s.procsBlocked])))

def hostCpuCols : List String :=
  ["ts_ns","cpu_idx","usr","nice","sys","idle","iowait","irq","softirq","steal","guest",
    "guest_nice"]

def hostCpuBinds (s : HostSnapshot F) (ci : ℕ) (cpu : CpuStat) : List (Value F) :=
  [bindU64 s.tsNs,bindU64 (UInt64.ofNat ci),bindU64 cpu.user,bindU64 cpu.nice,bindU64 cpu.system,
    bindU64 cpu.idle,bindU64 cpu.iowait,bindU64 cpu.irq,bindU64 cpu.softirq,bindU64 cpu.steal,
    bindU64 cpu.guest,bindU64 cpu.guestNice]

def hostDiskCols : List String :=
  ["ts_ns","name","major","minor","reads_completed","writes_completed","sectors_read",
    "sectors_written","io_ticks_ms","read_ticks_ms","write_ticks_ms","reads_merged",
    "writes_merged","in_flight","weighted_ticks_ms","valid_mask"]

/-- One value less than there are columns. -/
def hostDiskBinds (s : HostSnapshot F) (d : DiskStatRow) : List (Value F) :=
  [bindU64 s.tsNs,bindCString d.name,bindU32 d.major,bindU32 d.minor,
    bindValid d.readsCompleted (bit d.validMask 0),
    bindValid d.writesCompleted (bit d.validMask 4),
    bindValid d.sectorsRead (bit d.validMask 2),
    bindValid d.sectorsWritten (bit d.validMask 6),
    bindValid d.readTicksMs (bit d.validMask 3),
    bindValid d.writeTicksMs (bit d.validMask 7),
    bindValid d.readsMerged (bit d.validMask 1),
    bindValid d.writesMerged (bit d.validMask 5),
    bindValid d.iosInFlight (bit d.validMask 8),
    bindValid d.weightedTicksMs (bit d.validMask 10),bindU32 d.validMask]

def hostProcCols : List String :=
  ["ts_ns","pid","tgid","state","start_time","utime","stime","nvcsw","nivcsw","minflt","majflt",
    "total_vm","rss_kb","comm"]

def hostProcBinds (s : HostSnapshot F) (p : ProcessRow) : List (Value F) :=
  [bindU64 s.tsNs,bindU32 p.pid,bindU32 p.tgid,bindU32 p.state.toUInt32,bindU64 p.startTime,
    bindU64 p.utime,bindU64 p.stime,bindU64 p.nvcsw,bindU64 p.nivcsw,bindU64 p.minflt,
    bindU64 p.majflt,bindU64 p.totalVm,bindValid p.rssKb p.rssValid,bindCString p.comm]

def netStackCols : List String :=
  ["ts_ns","netns_ino","source","valid","error","active_opens","passive_opens","attempt_fails",
    "estab_resets","curr_estab","in_segs","out_segs","retrans_segs","in_errs","out_rsts",
    "listen_overflows","listen_drops","backlog_drop","rcv_q_drop","syn_retrans","timeouts",
    "memory_pressures","udp_in_datagrams","udp_no_ports","udp_in_errors","udp_out_datagrams",
    "udp_rcvbuf_errors","udp_sndbuf_errors","tcp_sock_mem","udp_sock_mem","frag_sock_mem",
    "tcp_state_established","tcp_state_syn_sent","tcp_state_syn_recv","tcp_state_fin_wait1",
    "tcp_state_fin_wait2","tcp_state_time_wait","tcp_state_close","tcp_state_close_wait",
    "tcp_state_last_ack","tcp_state_listen","tcp_state_closing","rqueue_bytes","wqueue_bytes",
    "tcp_states_valid"]

def netStackBinds (net : NetworkSnapshot) : List (Value F) :=
  let t := net.stack
  let bindState (x : UInt64) : Value F := bindValid x t.tcpStatesValid
  [bindU64 net.tsNs,bindU64 t.netnsIno,bindCString t.source,bindBool t.valid,bindCString t.error,
    bindU64 t.activeOpens,bindU64 t.passiveOpens,bindU64 t.attemptFails,bindU64 t.estabResets,
    bindU64 t.currEstab,bindU64 t.inSegs,bindU64 t.outSegs,bindU64 t.retransSegs,
    bindU64 t.inErrs,bindU64 t.outRsts,bindU64 t.listenOverflows,bindU64 t.listenDrops,
    bindU64 t.backlogDrop,bindU64 t.rcvQDrop,bindU64 t.synRetrans,bindU64 t.timeouts,
    bindU64 t.memoryPressures,bindU64 t.udpInDatagrams,bindU64 t.udpNoPorts,
    bindU64 t.udpInErrors,bindU64 t.udpOutDatagrams,bindU64 t.udpRcvbufErrors,
    bindU64 t.udpSndbufErrors,bindU64 t.tcpSockMem,bindU64 t.udpSockMem,bindU64 t.fragSockMem,
    bindState t.tcpStateEstablished,bindState t.tcpStateSynSent,bindState t.tcpStateSynRecv,
    bindState t.tcpStateFinWait1,bindState t.tcpStateFinWait2,bindState t.tcpStateTimeWait,
    bindState t.tcpStateClose,bindState t.tcpStateCloseWait,bindState t.tcpStateLastAck,
    bindState t.tcpStateListen,bindState t.tcpStateClosing,bindState t.rqueueBytes,
    bindState t.wqueueBytes,bindBool t.tcpStatesValid]

def netIfaceCols : List String :=
  ["ts_ns","ifindex","name","operstate","mtu","source","valid","error","rx_bytes","rx_packets",
    "rx_errors","rx_dropped","tx_bytes","tx_packets","tx_errors","tx_dropped","collisions",
    "carrier_changes","rx_nohandler"]

/-- The bytes of `"netlink"`. -/
def netlink : List UInt8 := [110,101,116,108,105,110,107]

def netIfaceBinds (net : NetworkSnapshot) (i : NetInterfaceRow) : List (Value F) :=
  [bindU64 net.tsNs,bindU32 i.ifindex,bindCString i.name,
    if 0 ≤ i.operstate then bindInt64 i.operstate.toInt64 else .null,bindU32 i.mtu,
    bindCString netlink,bindBool i.valid,bindCString i.error,bindU64 i.rxBytes,
    bindU64 i.rxPackets,bindU64 i.rxErrors,bindU64 i.rxDropped,bindU64 i.txBytes,
    bindU64 i.txPackets,bindU64 i.txErrors,bindU64 i.txDropped,bindU64 i.collisions,
    bindU64 i.carrierChanges,bindU64 i.rxNohandler]

def netSoftnetCols : List String :=
  ["ts_ns","cpu_idx","processed","dropped","time_squeeze","received_rps","flow_limit_count",
    "backlog_len","net_rx_softirq","net_tx_softirq","valid","error"]

def netSoftnetBinds (net : NetworkSnapshot) (n : NetSoftnetRow) : List (Value F) :=
  [bindU64 net.tsNs,bindU32 n.cpuIdx,bindU64 n.processed,bindU64 n.dropped,bindU64 n.timeSqueeze,
    bindU64 n.receivedRps,bindU64 n.flowLimitCount,bindU64 n.backlogLen,bindU64 n.netRxSoftirq,
    bindU64 n.netTxSoftirq,bindBool n.valid,bindCString n.error]

def gpuDeviceCols : List String :=
  ["ts_ns","uuid","pci_bdf","vendor","model","source","available","is_mig","util_pct",
    "mem_util_pct","mem_used_bytes","mem_total_bytes","temperature_c","power_w","power_limit_w",
    "energy_mj","sm_clock_mhz","mem_clock_mhz","pcie_rx_kbps","pcie_tx_kbps","encoder_util_pct",
    "decoder_util_pct","throttle_reasons","ecc_sbe_total","ecc_dbe_total","retired_pages",
    "valid_mask","error_code","error_text"]

/-- The mask is asked for the memory, the energy, the PCIe rates and the error totals only. -/
def gpuDeviceBinds [Double F] (gpu : GpuSnapshot F) (d : GpuDeviceRow F) : List (Value F) :=
  [bindU64 gpu.tsNs,bindCString d.uuid,bindCString d.pciBdf,bindCString d.vendor,
    bindCString d.model,bindCString d.source,bindBool d.available,bindBool d.isMig,
    bindDouble d.utilPct,bindDouble d.memUtilPct,
    bindValid d.memUsedBytes (bit d.validMask 2),bindValid d.memTotalBytes (bit d.validMask 3),
    bindDouble d.temperatureC,bindDouble d.powerW,bindDouble d.powerLimitW,
    bindValid d.energyMj (bit d.validMask 7),bindInt d.smClockMhz,bindInt d.memClockMhz,
    bindValid d.pcieRxKbps (bit d.validMask 10),bindValid d.pcieTxKbps (bit d.validMask 11),
    bindDouble d.encoderUtilPct,bindDouble d.decoderUtilPct,bindU64 d.throttleReasons,
    bindValid d.eccSbeTotal (bit d.validMask 15),bindValid d.eccDbeTotal (bit d.validMask 16),
    bindValid d.retiredPages (bit d.validMask 17),bindU32 d.validMask,bindInt d.errorCode,
    bindCString d.errorText]

/-! ## The tick -/

/-- A row that is written: its table and what it is about. -/
inductive Insert (F : Type)
  | host
  | hostCpu (ci : ℕ) (cpu : CpuStat)
  | hostDisk (d : DiskStatRow)
  | hostProc (p : ProcessRow)
  | netStack
  | netIface (i : NetInterfaceRow)
  | netSoftnet (n : NetSoftnetRow)
  | gpuDevice (d : GpuDeviceRow F)

/-- Without the statement of one of these two the function goes on; the others return. -/
def Insert.optional : Insert F → Bool
  | .host => true
  | .netStack => true
  | _ => false

def cpuInserts : ℕ → List CpuStat → List (Insert F)
  | _, [] => []
  | ci, cpu::cpus => .hostCpu ci cpu::cpuInserts (ci+1) cpus

/-- The rows in the order of the code. -/
def inserts (s : HostSnapshot F) (net : NetworkSnapshot) (gpu : GpuSnapshot F) :
    List (Insert F) :=
  .host::(cpuInserts 0 s.cpus++(s.disks.map .hostDisk++(s.procs.map .hostProc++
    .netStack::(net.ifaces.map .netIface++(net.softnets.map .netSoftnet++
      gpu.devices.map .gpuDevice)))))

/-- What SQLite answers for a row: the statement is there, and the row goes in. -/
structure Answer where
  prepared : Bool
  done : Bool

def store (answer : ℕ → Answer) : ℕ → List (Insert F) → List (Insert F)
  | _, [] => []
  | k, i::is =>
    if (answer k).prepared then
      if (answer k).done then i::store answer (k+1) is else store answer (k+1) is
    else if i.optional then store answer (k+1) is else []

/-- The rows that `WriteHostRow` stores. -/
def writeHostRow (dbOpen : Bool) (answer : ℕ → Answer) (s : HostSnapshot F)
    (net : NetworkSnapshot) (gpu : GpuSnapshot F) : List (Insert F) :=
  if dbOpen then store answer 0 (inserts s net gpu) else []

def Insert.row [Double F] (s : HostSnapshot F) (net : NetworkSnapshot) (gpu : GpuSnapshot F) :
    Insert F → Row F
  | .host => SqlTable.insert hostCols (hostBinds s)
  | .hostCpu ci cpu => SqlTable.insert hostCpuCols (hostCpuBinds s ci cpu)
  | .hostDisk d => SqlTable.insert hostDiskCols (hostDiskBinds s d)
  | .hostProc p => SqlTable.insert hostProcCols (hostProcBinds s p)
  | .netStack => SqlTable.insert netStackCols (netStackBinds net)
  | .netIface i => SqlTable.insert netIfaceCols (netIfaceBinds net i)
  | .netSoftnet n => SqlTable.insert netSoftnetCols (netSoftnetBinds net n)
  | .gpuDevice d => SqlTable.insert gpuDeviceCols (gpuDeviceBinds gpu d)

/-! ## What the columns are to hold -/

/-- The value of a field, or that it was not available. -/
inductive Datum (F : Type)
  | missing
  | number (n : ℤ)
  | real (x : F)
  | text (s : List UInt8)

namespace Datum

def u64 (x : UInt64) : Datum F := .number x.toNat

def u32 (x : UInt32) : Datum F := .number x.toNat

def flag (b : Bool) : Datum F := .number (if b then 1 else 0)

/-- A field with a validity bit or flag. -/
def valid (b : Bool) (f : Datum F) : Datum F := if b then f else .missing

def Holds : Datum F → Value F → Prop
  | .missing, v => v = .null
  | .number n, v => ∃ i, v = .integer i ∧ i.toInt = n
  | .real x, v => v = .real x
  | .text s, v => v = .text (String.ofList (s.map charOf))

/-- The value has a place in a column: no number beyond 63 bits, no NaN, no NUL in a text. -/
def Fits [Double F] : Datum F → Prop
  | .missing => True
  | .number n => n < 2^63
  | .real x => Double.isNan x = false
  | .text s => 0 ∉ s

end Datum

/-- The columns and the fields that they are named after. -/
abbrev Named (F : Type) := List (String × Datum F)

/-- Every named column holds its field. -/
def Faithful (row : Row F) (named : Named F) : Prop := ∀ e ∈ named, e.2.Holds (get row e.1)

open Datum (u64 u32 flag valid)

def psiFields (some full : String × String × String × String) (w : PsiWindow F) : Named F :=
  [(some.1,valid w.someValid (.real w.avg10)),(some.2.1,valid w.someValid (.real w.avg60)),
    (some.2.2.1,valid w.someValid (.real w.avg300)),(some.2.2.2,flag w.someValid),
    (full.1,valid w.fullValid (.real w.avg10)),(full.2.1,valid w.fullValid (.real w.avg60)),
    (full.2.2.1,valid w.fullValid (.real w.avg300)),(full.2.2.2,flag w.fullValid)]

def hostFields (s : HostSnapshot F) : Named F :=
  [("ts_ns",u64 s.tsNs),("cu_user",u64 s.total.user),("cu_nice",u64 s.total.nice),
    ("cu_sys",u64 s.total.system),("cu_idle",u64 s.total.idle),
    ("cu_iowait",u64 s.total.iowait),("cu_irq",u64 s.total.irq),
    ("cu_softirq",u64 s.total.softirq),("cu_steal",u64 s.total.steal),
    ("cu_guest",u64 s.total.guest),("cu_guest_nice",u64 s.total.guestNice),
    ("load1",.real s.load.load1),("load5",.real s.load.load5),("load15",.real s.load.load15),
    ("nr_running",u32 s.load.nrRunning),("nr_threads",u32 s.load.nrThreads),
    ("mem_total_kb",valid (bit s.mem.validMask 0) (u64 s.mem.memTotalKb)),
    ("mem_avail_kb",valid (bit s.mem.validMask 1) (u64 s.mem.memAvailableKb)),
    ("mem_free_kb",valid (bit s.mem.validMask 2) (u64 s.mem.memFreeKb)),
    ("buffers_kb",valid (bit s.mem.validMask 3) (u64 s.mem.buffersKb)),
    ("cached_kb",valid (bit s.mem.validMask 4) (u64 s.mem.cachedKb)),
    ("swap_total_kb",valid (bit s.mem.validMask 5) (u64 s.mem.swapTotalKb)),
    ("swap_free_kb",valid (bit s.mem.validMask 6) (u64 s.mem.swapFreeKb)),
    ("anon_pages_kb",valid (bit s.mem.validMask 7) (u64 s.mem.anonPagesKb)),
    ("sreclaimable_kb",valid (bit s.mem.validMask 8) (u64 s.mem.sreclaimableKb)),
    ("shmem_kb",valid (bit s.mem.validMask 9) (u64 s.mem.shmemKb)),
    ("dirty_kb",valid (bit s.mem.validMask 10) (u64 s.mem.dirtyKb)),
    ("writeback_kb",valid (bit s.mem.validMask 11) (u64 s.mem.writebackKb)),
    ("commit_limit_kb",valid (bit s.mem.validMask 12) (u64 s.mem.commitLimitKb)),
    ("committed_as_kb",valid (bit s.mem.validMask 13) (u64 s.mem.committedAsKb)),
    ("mem_valid_mask",u32 s.mem.validMask),
    ("vm_pgfault",valid (bit s.vm.validMask 0) (u64 s.vm.pgfault)),
    ("vm_pgmajfault",valid (bit s.vm.validMask 1) (u64 s.vm.pgmajfault)),
    ("vm_pswpin",valid (bit s.vm.validMask 2) (u64 s.vm.pswpin)),
    ("vm_pswpout",valid (bit s.vm.validMask 3) (u64 s.vm.pswpout)),
    ("vm_pgscan_kswapd",valid (bit s.vm.validMask 4) (u64 s.vm.pgscanKswapd)),
    ("vm_pgscan_direct",valid (bit s.vm.validMask 5) (u64 s.vm.pgscanDirect)),
    ("vm_pgsteal_kswapd",valid (bit s.vm.validMask 6) (u64 s.vm.pgstealKswapd)),
    ("vm_pgsteal_direct",valid (bit s.vm.validMask 7) (u64 s.vm.pgstealDirect)),
    ("vm_workingset_refault",valid (bit s.vm.validMask 8) (u64 s.vm.workingsetRefault)),
    ("vm_nr_dirty",valid (bit s.vm.validMask 9) (u64 s.vm.nrDirty)),
    ("vm_nr_writeback",valid (bit s.vm.validMask 10) (u64 s.vm.nrWriteback)),
    ("vm_valid_mask",u32 s.vm.validMask)]++
  (psiFields ("psi_cpu_s10","psi_cpu_s60","psi_cpu_s300","psi_cpu_s_valid")
    ("psi_cpu_f10","psi_cpu_f60","psi_cpu_f300","psi_cpu_f_valid") s.psi.cpu++
  (psiFields ("psi_io_s10","psi_io_s60","psi_io_s300","psi_io_s_valid")
    ("psi_io_f10","psi_io_f60","psi_io_f300","psi_io_f_valid") s.psi.io++
  (psiFields ("psi_mem_s10","psi_mem_s60","psi_mem_s300","psi_mem_s_valid")
    ("psi_mem_f10","psi_mem_f60","psi_mem_f300","psi_mem_f_valid") s.psi.memory++
  [("ctxt",u64 s.ctxt),("processes",u64 s.processes),("procs_running",u64 s.procsRunning),
    ("procs_blocked",u64 s.procsBlocked)])))

def hostCpuFields (s : HostSnapshot F) (ci : ℕ) (cpu : CpuStat) : Named F :=
  [("ts_ns",u64 s.tsNs),("cpu_idx",.number ci),("usr",u64 cpu.user),("nice",u64 cpu.nice),
    ("sys",u64 cpu.system),("idle",u64 cpu.idle),("iowait",u64 cpu.iowait),("irq",u64 cpu.irq),
    ("softirq",u64 cpu.softirq),("steal",u64 cpu.steal),("guest",u64 cpu.guest),
    ("guest_nice",u64 cpu.guestNice)]

def hostDiskFields (s : HostSnapshot F) (d : DiskStatRow) : Named F :=
  [("ts_ns",u64 s.tsNs),("name",.text d.name),("major",u32 d.major),("minor",u32 d.minor),
    ("reads_completed",valid (bit d.validMask 0) (u64 d.readsCompleted)),
    ("writes_completed",valid (bit d.validMask 4) (u64 d.writesCompleted)),
    ("sectors_read",valid (bit d.validMask 2) (u64 d.sectorsRead)),
    ("sectors_written",valid (bit d.validMask 6) (u64 d.sectorsWritten)),
    ("io_ticks_ms",valid (bit d.validMask 9) (u64 d.ioTicksMs)),
    ("read_ticks_ms",valid (bit d.validMask 3) (u64 d.readTicksMs)),
    ("write_ticks_ms",valid (bit d.validMask 7) (u64 d.writeTicksMs)),
    ("reads_merged",valid (bit d.validMask 1) (u64 d.readsMerged)),
    ("writes_merged",valid (bit d.validMask 5) (u64 d.writesMerged)),
    ("in_flight",valid (bit d.validMask 8) (u64 d.iosInFlight)),
    ("weighted_ticks_ms",valid (bit d.validMask 10) (u64 d.weightedTicksMs)),
    ("valid_mask",u32 d.validMask)]

def hostProcFields (s : HostSnapshot F) (p : ProcessRow) : Named F :=
  [("ts_ns",u64 s.tsNs),("pid",u32 p.pid),("tgid",u32 p.tgid),("state",u32 p.state.toUInt32),
    ("start_time",u64 p.startTime),("utime",u64 p.utime),("stime",u64 p.stime),
    ("nvcsw",u64 p.nvcsw),("nivcsw",u64 p.nivcsw),("minflt",u64 p.minflt),
    ("majflt",u64 p.majflt),("total_vm",u64 p.totalVm),("rss_kb",valid p.rssValid (u64 p.rssKb)),
    ("comm",.text p.comm)]

def netStackFields (net : NetworkSnapshot) : Named F :=
  let t := net.stack
  let counter (x : UInt64) : Datum F := valid t.valid (u64 x)
  let state (x : UInt64) : Datum F := valid t.tcpStatesValid (u64 x)
  [("ts_ns",u64 net.tsNs),("netns_ino",u64 t.netnsIno),("source",.text t.source),
    ("valid",flag t.valid),("error",.text t.error),("active_opens",counter t.activeOpens),
    ("passive_opens",counter t.passiveOpens),("attempt_fails",counter t.attemptFails),
    ("estab_resets",counter t.estabResets),("curr_estab",counter t.currEstab),
    ("in_segs",counter t.inSegs),("out_segs",counter t.outSegs),
    ("retrans_segs",counter t.retransSegs),("in_errs",counter t.inErrs),
    ("out_rsts",counter t.outRsts),("listen_overflows",counter t.listenOverflows),
    ("listen_drops",counter t.listenDrops),("backlog_drop",counter t.backlogDrop),
    ("rcv_q_drop",counter t.rcvQDrop),("syn_retrans",counter t.synRetrans),
    ("timeouts",counter t.timeouts),("memory_pressures",counter t.memoryPressures),
    ("udp_in_datagrams",counter t.udpInDatagrams),("udp_no_ports",counter t.udpNoPorts),
    ("udp_in_errors",counter t.udpInErrors),("udp_out_datagrams",counter t.udpOutDatagrams),
    ("udp_rcvbuf_errors",counter t.udpRcvbufErrors),
    ("udp_sndbuf_errors",counter t.udpSndbufErrors),("tcp_sock_mem",counter t.tcpSockMem),
    ("udp_sock_mem",counter t.udpSockMem),("frag_sock_mem",counter t.fragSockMem),
    ("tcp_state_established",state t.tcpStateEstablished),
    ("tcp_state_syn_sent",state t.tcpStateSynSent),
    ("tcp_state_syn_recv",state t.tcpStateSynRecv),
    ("tcp_state_fin_wait1",state t.tcpStateFinWait1),
    ("tcp_state_fin_wait2",state t.tcpStateFinWait2),
    ("tcp_state_time_wait",state t.tcpStateTimeWait),("tcp_state_close",state t.tcpStateClose),
    ("tcp_state_close_wait",state t.tcpStateCloseWait),
    ("tcp_state_last_ack",state t.tcpStateLastAck),("tcp_state_listen",state t.tcpStateListen),
    ("tcp_state_closing",state t.tcpStateClosing),("rqueue_bytes",state t.rqueueBytes),
    ("wqueue_bytes",state t.wqueueBytes),("tcp_states_valid",flag t.tcpStatesValid)]

def netIfaceFields (net : NetworkSnapshot) (i : NetInterfaceRow) : Named F :=
  let counter (x : UInt64) : Datum F := valid i.valid (u64 x)
  [("ts_ns",u64 net.tsNs),("ifindex",u32 i.ifindex),("name",.text i.name),
    ("operstate",valid (i.operstate ≠ -1) (.number i.operstate.toInt)),("mtu",u32 i.mtu),
    ("source",.text i.source),("valid",flag i.valid),("error",.text i.error),
    ("rx_bytes",counter i.rxBytes),("rx_packets",counter i.rxPackets),
    ("rx_errors",counter i.rxErrors),("rx_dropped",counter i.rxDropped),
    ("tx_bytes",counter i.txBytes),("tx_packets",counter i.txPackets),
    ("tx_errors",counter i.txErrors),("tx_dropped",counter i.txDropped),
    ("collisions",counter i.collisions),("carrier_changes",counter i.carrierChanges),
    ("rx_nohandler",counter i.rxNohandler)]

def netSoftnetFields (net : NetworkSnapshot) (n : NetSoftnetRow) : Named F :=
  let counter (x : UInt64) : Datum F := valid n.valid (u64 x)
  [("ts_ns",u64 net.tsNs),("cpu_idx",u32 n.cpuIdx),("processed",counter n.processed),
    ("dropped",counter n.dropped),("time_squeeze",counter n.timeSqueeze),
    ("received_rps",counter n.receivedRps),("flow_limit_count",counter n.flowLimitCount),
    ("backlog_len",counter n.backlogLen),("net_rx_softirq",counter n.netRxSoftirq),
    ("net_tx_softirq",counter n.netTxSoftirq),("valid",flag n.valid),("error",.text n.error)]

def gpuDeviceFields (gpu : GpuSnapshot F) (d : GpuDeviceRow F) : Named F :=
  let field (i : UInt32) (f : Datum F) : Datum F := valid (bit d.validMask i) f
  [("ts_ns",u64 gpu.tsNs),("uuid",.text d.uuid),("pci_bdf",.text d.pciBdf),
    ("vendor",.text d.vendor),("model",.text d.model),("source",.text d.source),
    ("available",flag d.available),("is_mig",flag d.isMig),("util_pct",field 0 (.real d.utilPct)),
    ("mem_util_pct",field 1 (.real d.memUtilPct)),
    ("mem_used_bytes",field 2 (u64 d.memUsedBytes)),
    ("mem_total_bytes",field 3 (u64 d.memTotalBytes)),
    ("temperature_c",field 4 (.real d.temperatureC)),("power_w",field 5 (.real d.powerW)),
    ("power_limit_w",field 6 (.real d.powerLimitW)),("energy_mj",field 7 (u64 d.energyMj)),
    ("sm_clock_mhz",field 8 (u32 d.smClockMhz)),("mem_clock_mhz",field 9 (u32 d.memClockMhz)),
    ("pcie_rx_kbps",field 10 (u64 d.pcieRxKbps)),("pcie_tx_kbps",field 11 (u64 d.pcieTxKbps)),
    ("encoder_util_pct",field 12 (.real d.encoderUtilPct)),
    ("decoder_util_pct",field 13 (.real d.decoderUtilPct)),
    ("throttle_reasons",field 14 (u64 d.throttleReasons)),
    ("ecc_sbe_total",field 15 (u64 d.eccSbeTotal)),
    ("ecc_dbe_total",field 16 (u64 d.eccDbeTotal)),
    ("retired_pages",field 17 (u64 d.retiredPages)),("valid_mask",u32 d.validMask),
    ("error_code",u32 d.errorCode),("error_text",.text d.errorText)]

def Insert.fields (s : HostSnapshot F) (net : NetworkSnapshot) (gpu : GpuSnapshot F) :
    Insert F → Named F
  | .host => hostFields s
  | .hostCpu ci cpu => hostCpuFields s ci cpu
  | .hostDisk d => hostDiskFields s d
  | .hostProc p => hostProcFields s p
  | .netStack => netStackFields net
  | .netIface i => netIfaceFields net i
  | .netSoftnet n => netSoftnetFields net n
  | .gpuDevice d => gpuDeviceFields gpu d

/-- Whatever SQLite answers, every row that is stored holds its fields. -/
def Fidelity [Double F] (s : HostSnapshot F) (net : NetworkSnapshot) (gpu : GpuSnapshot F) :
    Prop :=
  ∀ dbOpen answer, ∀ i ∈ writeHostRow dbOpen answer s net gpu,
    Faithful (i.row s net gpu) (i.fields s net gpu)

/-! ## One column -/

/-- The bound value is the field when the field fits and, besides, `c`. -/
def Bound [Double F] (f : Datum F) (v : Value F) (c : Prop) : Prop := f.Holds v ↔ f.Fits ∧ c

theorem holds_number_bindInt64 (n : ℤ) (i : Int64) :
    (Datum.number n : Datum F).Holds (bindInt64 i) ↔ i.toInt = n := by
  simp [Datum.Holds,bindInt64]

theorem toInt_toInt32_eq_iff (x : UInt32) :
    x.toInt32.toInt = x.toNat ↔ x.toNat < 2^31 := by
  have hx := x.toNat_lt
  have hint : x.toInt32.toInt = if 2*x.toNat < 2^32 then (x.toNat : ℤ) else x.toNat-2^32 :=
    BitVec.toInt_eq_toNat_cond x.toBitVec
  rw [hint]
  split <;> omega

theorem cString_eq_iff (s u : List UInt8) :
    cString s = String.ofList (u.map charOf) ↔ s.takeWhile (· ≠ 0) = u := by
  rw [cString,String.ofList_inj,(List.map_injective_iff.mpr charOf_injective).eq_iff]

theorem takeWhile_ne_zero_eq_iff (s : List UInt8) : s.takeWhile (· ≠ 0) = s ↔ 0 ∉ s := by
  rw [List.takeWhile_eq_self_iff]
  simp only [decide_eq_true_eq]
  exact ⟨fun h hmem => h 0 hmem rfl,fun h b hb hzero => h (hzero ▸ hb)⟩

section Columns

variable [Double F]

@[simp] theorem bound_u64 (x : UInt64) : Bound (u64 x : Datum F) (bindU64 x) True := by
  simp only [Bound,u64,bindU64,holds_number_bindInt64,toInt_toInt64_eq_iff,Datum.Fits,and_true]

theorem u32_fits (x : UInt32) : (u32 x : Datum F).Fits := by
  have hx := x.toNat_lt
  simp only [u32,Datum.Fits]
  omega

@[simp] theorem bound_u32 (x : UInt32) : Bound (u32 x : Datum F) (bindU32 x) True := by
  have h := bound_u64 (F:=F) x.toUInt64
  simpa only [Bound,u64,u32,bindU64,bindU32,UInt32.toNat_toUInt64] using h

/-- An `(int)` is the field while it is not negative. -/
@[simp] theorem bound_int (x : UInt32) : Bound (u32 x : Datum F) (bindInt x) (x.toNat < 2^31) := by
  simp only [Bound,bindInt,u32_fits,true_and]
  simp only [u32,holds_number_bindInt64,Int32.toInt_toInt64,toInt_toInt32_eq_iff]

@[simp] theorem bound_flag (b : Bool) : Bound (flag b : Datum F) (bindBool b) True := by
  cases b <;> simp [Bound,flag,bindBool,holds_number_bindInt64,Datum.Fits]

@[simp] theorem bound_real (x : F) : Bound (.real x) (bindDouble x) True := by
  unfold Bound bindDouble
  cases hx : Double.isNan x <;> simp [Datum.Holds,Datum.Fits,hx]

@[simp] theorem bound_text (s : List UInt8) :
    Bound (.text s : Datum F) (bindCString s) True := by
  simp only [Bound,Datum.Holds,Datum.Fits,bindCString,bindText,Value.text.injEq,cString_eq_iff,
    takeWhile_ne_zero_eq_iff,and_true]

/-- A literal in the place of a text. -/
@[simp] theorem bound_netlink (s : List UInt8) :
    Bound (.text s : Datum F) (bindCString netlink) (s = netlink) := by
  simp only [Bound,Datum.Holds,Datum.Fits,bindCString,bindText,Value.text.injEq,cString_eq_iff]
  constructor
  · intro h
    have hs : s = netlink := h.symm
    subst hs
    exact ⟨by decide,rfl⟩
  · rintro ⟨_,rfl⟩
    rfl

/-- NULL exactly when the flag says so. -/
theorem bound_valid {f : Datum F} {v : Value F} (h : Bound f v True) (b : Bool) :
    Bound (valid b f) (if b then v else .null) True := by
  cases b
  · simp [Bound,valid,Datum.Holds,Datum.Fits]
  · exact h

@[simp] theorem bound_bindValid (x : UInt64) (b : Bool) :
    Bound (valid b (u64 x) : Datum F) (bindValid x b) True := bound_valid (bound_u64 x) b

@[simp] theorem bound_valid_real (x : F) (b : Bool) :
    Bound (valid b (.real x)) (if b then bindDouble x else .null) True :=
  bound_valid (bound_real x) b

/-- A number whose flag is not asked. -/
theorem bound_unasked {f : Datum F} {i : Int64} {c : Prop} (h : Bound f (bindInt64 i) c)
    (b : Bool) : Bound (valid b f) (bindInt64 i) (b = true ∧ c) := by
  cases b
  · simp [Bound,valid,Datum.Holds,bindInt64]
  · simpa [Bound,valid] using h

@[simp] theorem bound_counter (x : UInt64) (b : Bool) :
    Bound (valid b (u64 x) : Datum F) (bindU64 x) (b = true) := by
  have h := bound_unasked (bound_u64 (F:=F) x) b
  rwa [and_true] at h

@[simp] theorem bound_clock (x : UInt32) (b : Bool) :
    Bound (valid b (u32 x) : Datum F) (bindInt x) (b = true ∧ x.toNat < 2^31) :=
  bound_unasked (bound_int x) b

/-- A double whose bit is not asked: a NaN is stored as NULL. -/
@[simp] theorem bound_unasked_real (x : F) (b : Bool) :
    Bound (valid b (.real x)) (bindDouble x) (b = true ∨ Double.isNan x = true) := by
  unfold Bound bindDouble
  cases b <;> cases hx : Double.isNan x <;> simp [valid,Datum.Holds,Datum.Fits,hx]

@[simp] theorem bound_cpuIdx (ci : ℕ) :
    Bound (.number ci : Datum F) (bindU64 (UInt64.ofNat ci)) True := by
  simp only [Bound,bindU64,holds_number_bindInt64,Datum.Fits,and_true]
  have hlt := (UInt64.ofNat ci).toInt64.toInt_lt
  refine ⟨fun h => by omega,fun h => ?_⟩
  have hnat : (UInt64.ofNat ci).toNat = ci := by
    rw [UInt64.toNat_ofNat']
    omega
  have hint := toInt_toInt64_eq_iff (UInt64.ofNat ci)
  rw [hnat] at hint
  exact hint.mpr h

/-- A negative state is stored as NULL, whatever it is. -/
@[simp] theorem bound_operstate (op : Int32) :
    Bound (valid (op ≠ -1) (.number op.toInt) : Datum F)
      (if 0 ≤ op then bindInt64 op.toInt64 else .null) (-1 ≤ op) := by
  have hneg : (-1 : Int32).toInt = -1 := rfl
  have hzero : (0 : Int32).toInt = 0 := rfl
  have hop : op ≠ -1 ↔ op.toInt ≠ -1 := Int32.toInt_inj.not.symm
  have hlt := op.toInt_lt
  simp only [Bound,Int32.le_iff_toInt_le,hneg,hzero,hop]
  by_cases hmissing : op.toInt = -1
  · simp [hmissing,valid,Datum.Holds,Datum.Fits]
  · by_cases hle : 0 ≤ op.toInt
    · simp only [hmissing,hle,valid,ne_eq,not_false_eq_true,decide_true,if_true,
        holds_number_bindInt64,Int32.toInt_toInt64,Datum.Fits,true_iff]
      omega
    · simp only [hmissing,hle,valid,ne_eq,not_false_eq_true,decide_true,if_true,if_false,
        Datum.Holds,reduceCtorEq,false_and,exists_false,false_iff]
      omega

end Columns

/-! ## One row -/

/-- The values bound one after the other against the columns. -/
def BoundAll [Double F] : Named F → List (Value F) → List Prop → Prop
  | [], [], [] => True
  | e::named, v::vals, c::cs => Bound e.2 v c ∧ BoundAll named vals cs
  | _, _, _ => False

theorem get_insert_cons (col : String) (cols : List String) (v : Value F) (vals : List (Value F)) :
    get (SqlTable.insert (col::cols) (v::vals)) col = v := by
  simp [SqlTable.insert,SqlTable.get]

theorem get_insert_cons_of_ne {col col' : String} (hne : col' ≠ col) (cols : List String)
    (v : Value F) (vals : List (Value F)) :
    get (SqlTable.insert (col::cols) (v::vals)) col' = get (SqlTable.insert cols vals) col' := by
  have hbeq : (col' == col) = false := beq_eq_false_iff_ne.mpr hne
  simp [SqlTable.insert,SqlTable.get,List.lookup_cons,hbeq]

theorem faithful_insert_iff [Double F] (named : Named F) : ∀ {vals : List (Value F)}
    {cs : List Prop}, (named.map Prod.fst).Nodup → BoundAll named vals cs →
      (Faithful (SqlTable.insert (named.map Prod.fst) vals) named ↔
        (∀ e ∈ named, e.2.Fits) ∧ ∀ c ∈ cs, c) := by
  induction named with
  | nil =>
    intro vals cs _ h
    match vals, cs, h with
    | [], [], _ => simp [Faithful]
  | cons e named ih =>
    intro vals cs hnodup h
    match vals, cs, h with
    | v::vals, c::cs, ⟨hb,h⟩ =>
      obtain ⟨hnotin,hnodup⟩ := List.nodup_cons.mp hnodup
      have hrest : (∀ e' ∈ named, e'.2.Holds
          (get (SqlTable.insert (e.1::named.map Prod.fst) (v::vals)) e'.1)) ↔
          Faithful (SqlTable.insert (named.map Prod.fst) vals) named := by
        refine forall₂_congr fun e' he' => ?_
        have hne : e'.1 ≠ e.1 := fun heq => hnotin (heq ▸ List.mem_map_of_mem he')
        rw [get_insert_cons_of_ne hne]
      have hfirst : e.2.Holds v ↔ e.2.Fits ∧ c := hb
      rw [Faithful,List.map_cons,List.forall_mem_cons,get_insert_cons,hrest,ih hnodup h,hfirst,
        List.forall_mem_cons,List.forall_mem_cons]
      exact and_and_and_comm

/-- Column after column, a row holds its fields when they fit and the conditions are met. -/
theorem row_faithful_iff [Double F] {named : Named F} {vals : List (Value F)}
    (cols : List String) (cs : List Prop) (hcols : named.map Prod.fst = cols)
    (hnodup : cols.Nodup) (h : BoundAll named vals cs) :
    Faithful (SqlTable.insert cols vals) named ↔ (∀ e ∈ named, e.2.Fits) ∧ ∀ c ∈ cs, c := by
  subst hcols
  exact faithful_insert_iff named hnodup h

/-- A row without conditions. -/
theorem plain_faithful_iff [Double F] {named : Named F} {cols : List String}
    {vals : List (Value F)} (n : ℕ) (hcols : named.map Prod.fst = cols) (hnodup : cols.Nodup)
    (h : BoundAll named vals (List.replicate n True)) :
    Faithful (SqlTable.insert cols vals) named ↔ ∀ e ∈ named, e.2.Fits := by
  rw [row_faithful_iff _ _ hcols hnodup h]
  exact and_iff_left fun c hc => List.eq_of_mem_replicate hc ▸ trivial

theorem bindPsi_eq [Double F] (w : PsiWindow F) : bindPsi w =
    [if w.someValid then bindDouble w.avg10 else .null,
      if w.someValid then bindDouble w.avg60 else .null,
      if w.someValid then bindDouble w.avg300 else .null,bindBool w.someValid,
      if w.fullValid then bindDouble w.avg10 else .null,
      if w.fullValid then bindDouble w.avg60 else .null,
      if w.fullValid then bindDouble w.avg300 else .null,bindBool w.fullValid] := by
  cases hs : w.someValid <;> cases hf : w.fullValid <;> simp [bindPsi,hs,hf]

section Rows

variable [Double F] (s : HostSnapshot F) (net : NetworkSnapshot) (gpu : GpuSnapshot F)

/-- Every field of a row fits. -/
def Insert.Fits (i : Insert F) : Prop := ∀ e ∈ i.fields s net gpu, e.2.Fits

theorem host_faithful_iff : Faithful ((Insert.host : Insert F).row s net gpu)
    ((Insert.host : Insert F).fields s net gpu) ↔ (Insert.host : Insert F).Fits s net gpu := by
  refine plain_faithful_iff 71 rfl (by decide +kernel) ?_
  simp only [Insert.fields,hostFields,hostBinds,psiFields,bindPsi_eq,List.cons_append,
    List.nil_append,List.reduceReplicate,BoundAll,bound_u64,bound_u32,bound_real,
    bound_bindValid,bound_valid_real,bound_flag,and_true]

theorem hostProc_faithful_iff (p : ProcessRow) : Faithful ((Insert.hostProc p).row s net gpu)
    ((Insert.hostProc p).fields s net gpu) ↔ (Insert.hostProc p).Fits s net gpu := by
  refine plain_faithful_iff 14 rfl (by decide) ?_
  simp only [Insert.fields,hostProcFields,hostProcBinds,List.reduceReplicate,BoundAll,bound_u64,
    bound_u32,bound_bindValid,bound_text,and_true]

theorem hostCpu_faithful_iff (ci : ℕ) (cpu : CpuStat) :
    Faithful ((Insert.hostCpu ci cpu).row s net gpu) ((Insert.hostCpu ci cpu).fields s net gpu) ↔
      (Insert.hostCpu ci cpu).Fits s net gpu := by
  refine plain_faithful_iff 12 rfl (by decide) ?_
  simp only [Insert.fields,hostCpuFields,hostCpuBinds,List.reduceReplicate,BoundAll,bound_u64,
    bound_cpuIdx,and_true]

/-- The last column of a disk is NULL, whatever its mask is. -/
theorem hostDisk_not_faithful (d : DiskStatRow) :
    ¬ Faithful ((Insert.hostDisk d).row s net gpu) ((Insert.hostDisk d).fields s net gpu) := by
  intro h
  have hmask := h ("valid_mask",u32 d.validMask) (by simp [Insert.fields,hostDiskFields])
  have hnull : get ((Insert.hostDisk d).row s net gpu) "valid_mask" = .null := rfl
  rw [hnull] at hmask
  simp [Datum.Holds,u32] at hmask

/-- From `io_ticks_ms` on a column of a disk holds the field of the column behind it. -/
theorem hostDisk_shifted (d : DiskStatRow) :
    ["io_ticks_ms","read_ticks_ms","write_ticks_ms","reads_merged","writes_merged","in_flight",
      "weighted_ticks_ms"].map (get ((Insert.hostDisk d).row s net gpu)) =
    [bindValid d.readTicksMs (bit d.validMask 3),bindValid d.writeTicksMs (bit d.validMask 7),
      bindValid d.readsMerged (bit d.validMask 1),bindValid d.writesMerged (bit d.validMask 5),
      bindValid d.iosInFlight (bit d.validMask 8),
      bindValid d.weightedTicksMs (bit d.validMask 10),bindU32 d.validMask] := rfl

theorem netStack_faithful_iff : Faithful ((Insert.netStack : Insert F).row s net gpu)
    ((Insert.netStack : Insert F).fields s net gpu) ↔
      (Insert.netStack : Insert F).Fits s net gpu ∧ net.stack.valid = true := by
  refine (row_faithful_iff netStackCols (List.replicate 5 True++
    (List.replicate 26 (net.stack.valid = true)++List.replicate 14 True)) rfl
    (by decide +kernel) ?_).trans
      (and_congr_right fun _ => ?_)
  · simp only [Insert.fields,netStackFields,netStackBinds,List.reduceReplicate,List.cons_append,
      List.nil_append,BoundAll,bound_u64,bound_text,bound_flag,bound_counter,bound_bindValid,
      and_true]
  · simp only [List.forall_mem_append,List.forall_mem_replicate]
    simp

/-- What a network interface must be like for its row to hold it. -/
def IfaceRecorded (i : NetInterfaceRow) : Prop :=
  -1 ≤ i.operstate ∧ i.source = netlink ∧ i.valid = true

theorem netIface_faithful_iff (i : NetInterfaceRow) :
    Faithful ((Insert.netIface i).row s net gpu) ((Insert.netIface i).fields s net gpu) ↔
      (Insert.netIface i).Fits s net gpu ∧ IfaceRecorded i := by
  refine (row_faithful_iff netIfaceCols ([True,True,True,-1 ≤ i.operstate,True,i.source = netlink,
    True,True]++List.replicate 11 (i.valid = true)) rfl (by decide) ?_).trans
      (and_congr_right fun _ => ?_)
  · simp only [Insert.fields,netIfaceFields,netIfaceBinds,List.reduceReplicate,List.cons_append,
      List.nil_append,BoundAll,bound_u64,bound_u32,bound_text,bound_flag,bound_counter,
      bound_operstate,bound_netlink,and_true]
  · simp only [List.forall_mem_append,List.forall_mem_replicate,List.forall_mem_cons]
    simp [IfaceRecorded,and_assoc]

theorem netSoftnet_faithful_iff (n : NetSoftnetRow) :
    Faithful ((Insert.netSoftnet n).row s net gpu) ((Insert.netSoftnet n).fields s net gpu) ↔
      (Insert.netSoftnet n).Fits s net gpu ∧ n.valid = true := by
  refine (row_faithful_iff netSoftnetCols ([True,True]++(List.replicate 8 (n.valid = true)++
    [True,True])) rfl (by decide) ?_).trans (and_congr_right fun _ => ?_)
  · simp only [Insert.fields,netSoftnetFields,netSoftnetBinds,List.reduceReplicate,
      List.cons_append,List.nil_append,BoundAll,bound_u64,bound_u32,bound_text,bound_flag,
      bound_counter,and_true]
  · simp only [List.forall_mem_append,List.forall_mem_replicate,List.forall_mem_cons]
    simp

/-- A double that is stored with its bit unasked: it must be there, or be a NaN. -/
def MaskedOrNan (d : GpuDeviceRow F) (i : UInt32) (x : F) : Prop :=
  bit d.validMask i = true ∨ Double.isNan x = true

/-- What a GPU device must be like for its row to hold it: the values whose bits are not asked
are there, and what is stored as an `int` is one. -/
def GpuRecorded (d : GpuDeviceRow F) : Prop :=
  MaskedOrNan d 0 d.utilPct ∧ MaskedOrNan d 1 d.memUtilPct ∧ MaskedOrNan d 4 d.temperatureC ∧
    MaskedOrNan d 5 d.powerW ∧ MaskedOrNan d 6 d.powerLimitW ∧
    (bit d.validMask 8 = true ∧ d.smClockMhz.toNat < 2^31) ∧
    (bit d.validMask 9 = true ∧ d.memClockMhz.toNat < 2^31) ∧
    MaskedOrNan d 12 d.encoderUtilPct ∧ MaskedOrNan d 13 d.decoderUtilPct ∧
    bit d.validMask 14 = true ∧ d.errorCode.toNat < 2^31

theorem gpuDevice_faithful_iff (d : GpuDeviceRow F) :
    Faithful ((Insert.gpuDevice d).row s net gpu) ((Insert.gpuDevice d).fields s net gpu) ↔
      (Insert.gpuDevice d).Fits s net gpu ∧ GpuRecorded d := by
  refine (row_faithful_iff gpuDeviceCols (List.replicate 8 True++[MaskedOrNan d 0 d.utilPct,
    MaskedOrNan d 1 d.memUtilPct,True,True,MaskedOrNan d 4 d.temperatureC,MaskedOrNan d 5 d.powerW,
    MaskedOrNan d 6 d.powerLimitW,True,bit d.validMask 8 = true ∧ d.smClockMhz.toNat < 2^31,
    bit d.validMask 9 = true ∧ d.memClockMhz.toNat < 2^31,True,True,
    MaskedOrNan d 12 d.encoderUtilPct,MaskedOrNan d 13 d.decoderUtilPct,bit d.validMask 14 = true,
    True,True,True,True,d.errorCode.toNat < 2^31,True]) rfl (by decide) ?_).trans
      (and_congr_right fun _ => ?_)
  · simp only [Insert.fields,gpuDeviceFields,gpuDeviceBinds,MaskedOrNan,List.reduceReplicate,
      List.cons_append,List.nil_append,BoundAll,bound_u64,bound_u32,bound_text,bound_flag,
      bound_bindValid,bound_unasked_real,bound_clock,bound_counter,bound_int,and_true]
  · simp only [List.forall_mem_append,List.forall_mem_replicate,List.forall_mem_cons]
    simp [GpuRecorded,and_assoc]

/-- What the code needs of the source of a row besides values that fit. -/
def Insert.Recorded : Insert F → Prop
  | .host => True
  | .hostCpu _ _ => True
  | .hostDisk _ => False
  | .hostProc _ => True
  | .netStack => net.stack.valid = true
  | .netIface i => IfaceRecorded i
  | .netSoftnet n => n.valid = true
  | .gpuDevice d => GpuRecorded d

theorem tableRow_faithful_iff (i : Insert F) : Faithful (i.row s net gpu) (i.fields s net gpu) ↔
    i.Fits s net gpu ∧ i.Recorded net := by
  cases i with
  | host => exact (host_faithful_iff s net gpu).trans (and_true _).symm.to_iff
  | hostCpu ci cpu => exact (hostCpu_faithful_iff s net gpu ci cpu).trans (and_true _).symm.to_iff
  | hostDisk d => exact iff_of_false (hostDisk_not_faithful s net gpu d) fun h => h.2
  | hostProc p => exact (hostProc_faithful_iff s net gpu p).trans (and_true _).symm.to_iff
  | netStack => exact netStack_faithful_iff s net gpu
  | netIface i => exact netIface_faithful_iff s net gpu i
  | netSoftnet n => exact netSoftnet_faithful_iff s net gpu n
  | gpuDevice d => exact gpuDevice_faithful_iff s net gpu d

end Rows

/-! ## One tick -/

theorem store_subset (answer : ℕ → Answer) (is : List (Insert F)) : ∀ k,
    store answer k is ⊆ is := by
  induction is with
  | nil => intro k; simp [store]
  | cons i is ih =>
    intro k
    have hrest := List.subset_cons_of_subset i (ih (k+1))
    unfold store
    split
    · split
      · exact List.cons_subset_cons i (ih (k+1))
      · exact hrest
    · split
      · exact hrest
      · exact List.nil_subset _

/-- With a database that takes everything every row is stored. -/
theorem store_all (is : List (Insert F)) : ∀ k, store (fun _ => ⟨true,true⟩) k is = is := by
  induction is with
  | nil => intro k; rfl
  | cons i is ih => intro k; simp [store,ih]

theorem mem_cpuInserts {i : Insert F} (cpus : List CpuStat) : ∀ {ci : ℕ},
    i ∈ cpuInserts ci cpus → ∃ k cpu, i = .hostCpu k cpu := by
  induction cpus with
  | nil => simp [cpuInserts]
  | cons cpu cpus ih =>
    intro ci hi
    rcases List.mem_cons.mp hi with rfl | hi
    · exact ⟨ci,cpu,rfl⟩
    · exact ih hi

section Tick

variable [Double F] (s : HostSnapshot F) (net : NetworkSnapshot) (gpu : GpuSnapshot F)

/-- The snapshots that the rows hold. -/
structure Recordable : Prop where
  fits : ∀ i ∈ inserts s net gpu, i.Fits s net gpu
  disks : s.disks = []
  stack : net.stack.valid = true
  ifaces : ∀ i ∈ net.ifaces, IfaceRecorded i
  softnets : ∀ n ∈ net.softnets, n.valid = true
  devices : ∀ d ∈ gpu.devices, GpuRecorded d

theorem inserts_recorded_iff : (∀ i ∈ inserts s net gpu, i.Recorded net) ↔
    s.disks = [] ∧ net.stack.valid = true ∧ (∀ i ∈ net.ifaces, IfaceRecorded i) ∧
      (∀ n ∈ net.softnets, n.valid = true) ∧ ∀ d ∈ gpu.devices, GpuRecorded d := by
  have hcpus : ∀ i ∈ (cpuInserts 0 s.cpus : List (Insert F)), i.Recorded net := by
    intro i hi
    obtain ⟨k,cpu,rfl⟩ := mem_cpuInserts s.cpus hi
    trivial
  have hprocs : ∀ i ∈ (s.procs.map .hostProc : List (Insert F)), i.Recorded net := by
    simp [Insert.Recorded]
  have hdisks : (∀ i ∈ (s.disks.map .hostDisk : List (Insert F)), i.Recorded net) ↔
      s.disks = [] := by
    simp [Insert.Recorded,List.eq_nil_iff_forall_not_mem]
  have hifaces : (∀ i ∈ (net.ifaces.map .netIface : List (Insert F)), i.Recorded net) ↔
      ∀ i ∈ net.ifaces, IfaceRecorded i := List.forall_mem_map
  have hsoftnets : (∀ i ∈ (net.softnets.map .netSoftnet : List (Insert F)), i.Recorded net) ↔
      ∀ n ∈ net.softnets, n.valid = true := List.forall_mem_map
  have hdevices : (∀ i ∈ (gpu.devices.map .gpuDevice : List (Insert F)), i.Recorded net) ↔
      ∀ d ∈ gpu.devices, GpuRecorded d := List.forall_mem_map
  rw [inserts,List.forall_mem_cons,List.forall_mem_append,List.forall_mem_append,hdisks,
    List.forall_mem_append,List.forall_mem_cons,List.forall_mem_append,List.forall_mem_append,
    hifaces,hsoftnets,hdevices]
  exact ⟨fun h => ⟨h.2.2.1,h.2.2.2.2⟩,fun h => ⟨trivial,hcpus,h.1,hprocs,h.2⟩⟩

/-- The rows hold their fields exactly when the snapshots are recordable. -/
theorem writeHostRow_faithful_iff : Fidelity s net gpu ↔ Recordable s net gpu := by
  have hrows : Fidelity s net gpu ↔
      ∀ i ∈ inserts s net gpu, i.Fits s net gpu ∧ i.Recorded net := by
    simp only [Fidelity,tableRow_faithful_iff]
    constructor
    · intro h
      have hall := h true fun _ => ⟨true,true⟩
      rwa [writeHostRow,if_pos rfl,store_all] at hall
    · intro h dbOpen answer i hi
      unfold writeHostRow at hi
      split at hi
      · exact h i (store_subset answer _ 0 hi)
      · cases hi
  rw [hrows,forall₂_and,inserts_recorded_iff]
  exact ⟨fun h => ⟨h.1,h.2.1,h.2.2.1,h.2.2.2.1,h.2.2.2.2.1,h.2.2.2.2.2⟩,
    fun h => ⟨h.fits,h.disks,h.stack,h.ifaces,h.softnets,h.devices⟩⟩

end Tick

/-! ## A disk -/

/-- The disk was busy for 900 ms. -/
def sda : DiskStatRow where
  major := 8
  name := [115,100,97]
  readTicksMs := 40
  ioTicksMs := 900
  validMask := 2047

def quietPsi : PsiWindow ℚ where
  avg10 := 0
  avg60 := 0
  avg300 := 0

def oneDisk : HostSnapshot ℚ where
  tsNs := 1000
  load := ⟨0,0,0,1,1⟩
  psi := ⟨quietPsi,quietPsi,quietPsi⟩
  disks := [sda]

def readNet : NetworkSnapshot where
  stack := { valid := true }

/-- 40 is stored as the busy time and nothing as the mask. -/
theorem oneDisk_not_faithful :
    get ((Insert.hostDisk sda).row oneDisk readNet ⟨0,[]⟩) "io_ticks_ms" = .integer 40 ∧
      ¬ Fidelity oneDisk readNet ⟨0,[]⟩ := by
  refine ⟨rfl,fun h => ?_⟩
  have hrow := h true (fun _ => ⟨true,true⟩) (.hostDisk sda) (by simp [writeHostRow,store_all,
    inserts,oneDisk])
  exact hostDisk_not_faithful _ _ _ _ hrow

end HostRows
end ETraceDiag
