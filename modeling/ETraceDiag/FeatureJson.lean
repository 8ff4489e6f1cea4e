import ETraceDiag.ByteJson
import ETraceDiag.Metrics

/-!
# The anomaly request

`to_json` of the features and of the records in them, and the texts that the serializer meets
there.
-/

namespace ETraceDiag
namespace FeatureJson

open ByteJson Metrics
open ProcessTable (ProcessRow)

variable {F : Type}

structure EbpfPerTidStats where
  tid : UInt32 := 0
  onCpuNs : UInt64 := 0
  nrSwVol : UInt64 := 0
  nrSwInvol : UInt64 := 0
  ioOps : UInt64 := 0
  ioBytes : UInt64 := 0
  pfMinor : UInt64 := 0
  pfMajor : UInt64 := 0
  lockWaits : UInt64 := 0
  lockLatNs : UInt64 := 0

structure EbpfCounters where
  tsNs : UInt64 := 0
  onCpuNsTotal : UInt64 := 0
  switchTotal : UInt64 := 0
  ioOpsTotal : UInt64 := 0
  ioBytesTotal : UInt64 := 0
  minorFaultsTotal : UInt64 := 0
  majorFaultsTotal : UInt64 := 0
  lockWaitsTotal : UInt64 := 0
  perTid : List EbpfPerTidStats := []

structure AnomalyFeatures (F : Type) where
  seq : UInt64 := 0
  tsNs : UInt64 := 0
  host : HostSnapshot F
  ebpf : EbpfCounters := {}
  topTasks : List ProcessRow := []
  network : NetworkSnapshot := {}
  gpu : GpuSnapshot F := {}
  cgroup : CgroupSnapshot F

def psiWindow (w : PsiWindow F) : ByteJson F :=
  .obj [("avg10",.float w.avg10),("avg60",.float w.avg60),("avg300",.float w.avg300),
    ("some_valid",.bool w.someValid),("full_valid",.bool w.fullValid)]

def processJson (r : ProcessRow) : ByteJson F :=
  .obj [("v",.int 2),("pid",u32 r.pid),("tgid",u32 r.tgid),("state",u32 r.state.toUInt32),
    ("start_time",u64 r.startTime),("utime",u64 r.utime),("stime",u64 r.stime),
    ("nvcsw",u64 r.nvcsw),("nivcsw",u64 r.nivcsw),("minflt",u64 r.minflt),
    ("majflt",u64 r.majflt),("total_vm",u64 r.totalVm),("rchar",u64 r.rchar),
    ("wchar",u64 r.wchar),("syscr",u64 r.syscr),("syscw",u64 r.syscw),
    ("read_bytes",u64 r.readBytes),("write_bytes",u64 r.writeBytes),
    ("sum_exec_runtime_ns",u64 r.sumExecRuntimeNs),("run_delay_ns",u64 r.runDelayNs),
    ("rss_anon_kb",u64 (r.rssAnonPages*4)),("rss_file_kb",u64 (r.rssFilePages*4)),
    ("rss_shmem_kb",u64 (r.rssShmemPages*4)),("swap_kb",u64 (r.swapEnts*4)),
    ("rss_kb",if r.rssValid then u64 r.rssKb else .null),("rss_valid",.bool r.rssValid),
    ("comm",.str r.comm)]

def cpuJson (c : CpuStat) : ByteJson F :=
  .obj [("user",u64 c.user),("nice",u64 c.nice),("system",u64 c.system),("idle",u64 c.idle),
    ("iowait",u64 c.iowait),("irq",u64 c.irq),("softirq",u64 c.softirq),("steal",u64 c.steal),
    ("guest",u64 c.guest),("guest_nice",u64 c.guestNice)]

def diskJson (d : DiskStatRow) : ByteJson F :=
  .obj [("major",u32 d.major),("minor",u32 d.minor),("name",.str d.name),
    ("reads_completed",u64 d.readsCompleted),("reads_merged",u64 d.readsMerged),
    ("sectors_read",u64 d.sectorsRead),("read_ticks_ms",u64 d.readTicksMs),
    ("writes_completed",u64 d.writesCompleted),("writes_merged",u64 d.writesMerged),
    ("sectors_written",u64 d.sectorsWritten),("write_ticks_ms",u64 d.writeTicksMs),
    ("ios_in_flight",u64 d.iosInFlight),("io_ticks_ms",u64 d.ioTicksMs),
    ("weighted_ticks_ms",u64 d.weightedTicksMs),("valid_mask",u32 d.validMask)]

def memJson (m : MemInfo) : ByteJson F :=
  .obj [("mem_total_kb",u64 m.memTotalKb),("mem_available_kb",u64 m.memAvailableKb),
    ("mem_free_kb",u64 m.memFreeKb),("buffers_kb",u64 m.buffersKb),("cached_kb",u64 m.cachedKb),
    ("swap_total_kb",u64 m.swapTotalKb),("swap_free_kb",u64 m.swapFreeKb),
    ("anon_pages_kb",u64 m.anonPagesKb),("sreclaimable_kb",u64 m.sreclaimableKb),
    ("shmem_kb",u64 m.shmemKb),("dirty_kb",u64 m.dirtyKb),("writeback_kb",u64 m.writebackKb),
    ("commit_limit_kb",u64 m.commitLimitKb),("committed_as_kb",u64 m.committedAsKb),
    ("valid_mask",u32 m.validMask)]

def vmJson (v : VmStatSnapshot) : ByteJson F :=
  .obj [("pgfault",u64 v.pgfault),("pgmajfault",u64 v.pgmajfault),("pswpin",u64 v.pswpin),
    ("pswpout",u64 v.pswpout),("pgscan_kswapd",u64 v.pgscanKswapd),
    ("pgscan_direct",u64 v.pgscanDirect),("pgsteal_kswapd",u64 v.pgstealKswapd),
    ("pgsteal_direct",u64 v.pgstealDirect),("workingset_refault",u64 v.workingsetRefault),
    ("nr_dirty",u64 v.nrDirty),("nr_writeback",u64 v.nrWriteback),("valid_mask",u32 v.validMask)]

def hostJson (s : HostSnapshot F) : ByteJson F :=
  .obj [("v",.int 2),("ts_ns",u64 s.tsNs),("cpus",.arr (s.cpus.map cpuJson)),
    ("total",cpuJson s.total),
    ("load",.obj [("load1",.float s.load.load1),("load5",.float s.load.load5),
      ("load15",.float s.load.load15),("nr_running",u32 s.load.nrRunning),
      ("nr_threads",u32 s.load.nrThreads)]),
    ("mem",memJson s.mem),("vm",vmJson s.vm),
    ("psi",.obj [("cpu",psiWindow s.psi.cpu),("io",psiWindow s.psi.io),
      ("memory",psiWindow s.psi.memory)]),
    ("disks",.arr (s.disks.map diskJson)),("procs",.arr (s.procs.map processJson)),
    ("ctxt",u64 s.ctxt),("processes",u64 s.processes),("procs_running",u64 s.procsRunning),
    ("procs_blocked",u64 s.procsBlocked)]

def ifaceJson (i : NetInterfaceRow) : ByteJson F :=
  .obj [("ifindex",u32 i.ifindex),("name",.str i.name),("source",.str i.source),
    ("operstate",.int i.operstate.toInt),("mtu",u32 i.mtu),("rx_bytes",u64 i.rxBytes),
    ("rx_packets",u64 i.rxPackets),("rx_errors",u64 i.rxErrors),("rx_dropped",u64 i.rxDropped),
    ("tx_bytes",u64 i.txBytes),("tx_packets",u64 i.txPackets),("tx_errors",u64 i.txErrors),
    ("tx_dropped",u64 i.txDropped),("collisions",u64 i.collisions),
    ("carrier_changes",u64 i.carrierChanges),("rx_nohandler",u64 i.rxNohandler),
    ("valid",.bool i.valid),("error",.str i.error)]

def softnetJson (n : NetSoftnetRow) : ByteJson F :=
  .obj [("cpu_idx",u32 n.cpuIdx),("processed",u64 n.processed),("dropped",u64 n.dropped),
    ("time_squeeze",u64 n.timeSqueeze),("received_rps",u64 n.receivedRps),
    ("flow_limit_count",u64 n.flowLimitCount),("backlog_len",u64 n.backlogLen),
    ("net_rx_softirq",u64 n.netRxSoftirq),("net_tx_softirq",u64 n.netTxSoftirq),
    ("valid",.bool n.valid),("error",.str n.error)]

def stackJson (t : NetStackSnapshot) : ByteJson F :=
  .obj [("netns_ino",u64 t.netnsIno),("source",.str t.source),("valid",.bool t.valid),
    ("error",.str t.error),("active_opens",u64 t.activeOpens),
    ("passive_opens",u64 t.passiveOpens),("attempt_fails",u64 t.attemptFails),
    ("estab_resets",u64 t.estabResets),("curr_estab",u64 t.currEstab),("in_segs",u64 t.inSegs),
    ("out_segs",u64 t.outSegs),("retrans_segs",u64 t.retransSegs),("in_errs",u64 t.inErrs),
    ("out_rsts",u64 t.outRsts),("listen_overflows",u64 t.listenOverflows),
    ("listen_drops",u64 t.listenDrops),("backlog_drop",u64 t.backlogDrop),
    ("rcv_q_drop",u64 t.rcvQDrop),("syn_retrans",u64 t.synRetrans),("timeouts",u64 t.timeouts),
    ("memory_pressures",u64 t.memoryPressures),("udp_in_datagrams",u64 t.udpInDatagrams),
    ("udp_no_ports",u64 t.udpNoPorts),("udp_in_errors",u64 t.udpInErrors),
    ("udp_out_datagrams",u64 t.udpOutDatagrams),("udp_rcvbuf_errors",u64 t.udpRcvbufErrors),
    ("udp_sndbuf_errors",u64 t.udpSndbufErrors),("tcp_sock_mem",u64 t.tcpSockMem),
    ("udp_sock_mem",u64 t.udpSockMem),("frag_sock_mem",u64 t.fragSockMem),
    ("tcp_state_established",u64 t.tcpStateEstablished),
    ("tcp_state_syn_sent",u64 t.tcpStateSynSent),("tcp_state_syn_recv",u64 t.tcpStateSynRecv),
    ("tcp_state_fin_wait1",u64 t.tcpStateFinWait1),
    ("tcp_state_fin_wait2",u64 t.tcpStateFinWait2),
    ("tcp_state_time_wait",u64 t.tcpStateTimeWait),("tcp_state_close",u64 t.tcpStateClose),
    ("tcp_state_close_wait",u64 t.tcpStateCloseWait),
    ("tcp_state_last_ack",u64 t.tcpStateLastAck),("tcp_state_listen",u64 t.tcpStateListen),
    ("tcp_state_closing",u64 t.tcpStateClosing),("rqueue_bytes",u64 t.rqueueBytes),
    ("wqueue_bytes",u64 t.wqueueBytes),("tcp_states_valid",.bool t.tcpStatesValid)]

def networkJson (s : NetworkSnapshot) : ByteJson F :=
  .obj [("v",.int 2),("ts_ns",u64 s.tsNs),("enabled",.bool s.enabled),("stack",stackJson s.stack),
    ("ifaces",.arr (s.ifaces.map ifaceJson)),("softnets",.arr (s.softnets.map softnetJson))]

def cgroupIoJson (d : CgroupIOStat) : ByteJson F :=
  .obj [("major",u32 d.major),("minor",u32 d.minor),("rbytes",u64 d.rbytes),
    ("wbytes",u64 d.wbytes),("rios",u64 d.rios),("wios",u64 d.wios),("dbytes",u64 d.dbytes),
    ("dios",u64 d.dios)]

def cgroupJson (s : CgroupSnapshot F) : ByteJson F :=
  .obj [("v",.int 2),("ts_ns",u64 s.tsNs),("available",.bool s.available),
    ("cgroup_path",.str s.cgroupPath),("error",.str s.error),
    ("cpu",.obj [("usage_usec",u64 s.cpuUsageUsec),("user_usec",u64 s.userUsec),
      ("system_usec",u64 s.systemUsec),("nr_periods",u64 s.nrPeriods),
      ("nr_throttled",u64 s.nrThrottled),("throttled_usec",u64 s.throttledUsec),
      ("valid",.bool s.cpuValid)]),
    ("memory",.obj [("current_bytes",u64 s.memoryCurrentBytes),
      ("max_bytes",u64 s.memoryMaxBytes),("max_unlimited",.bool s.memoryMaxUnlimited),
      ("events_low",u64 s.memoryEventsLow),("events_high",u64 s.memoryEventsHigh),
      ("events_max",u64 s.memoryEventsMax),("events_oom",u64 s.memoryEventsOom),
      ("events_oom_kill",u64 s.memoryEventsOomKill),("valid",.bool s.memoryValid)]),
    ("cpu_psi",psiWindow s.cpuPsi),("memory_psi",psiWindow s.memoryPsi),
    ("io",.arr (s.io.map cgroupIoJson))]

def deviceJson (d : GpuDeviceRow F) : ByteJson F :=
  .obj [("uuid",.str d.uuid),("pci_bdf",.str d.pciBdf),("vendor",.str d.vendor),
    ("model",.str d.model),("source",.str d.source),("available",.bool d.available),
    ("is_mig",.bool d.isMig),("util_pct",.float d.utilPct),("mem_util_pct",.float d.memUtilPct),
    ("mem_used_bytes",u64 d.memUsedBytes),("mem_total_bytes",u64 d.memTotalBytes),
    ("temperature_c",.float d.temperatureC),("power_w",.float d.powerW),
    ("power_limit_w",.float d.powerLimitW),("energy_mj",u64 d.energyMj),
    ("sm_clock_mhz",u32 d.smClockMhz),("mem_clock_mhz",u32 d.memClockMhz),
    ("pcie_rx_kbps",u64 d.pcieRxKbps),("pcie_tx_kbps",u64 d.pcieTxKbps),
    ("encoder_util_pct",.float d.encoderUtilPct),("decoder_util_pct",.float d.decoderUtilPct),
    ("throttle_reasons",u64 d.throttleReasons),("ecc_sbe_total",u64 d.eccSbeTotal),
    ("ecc_dbe_total",u64 d.eccDbeTotal),("retired_pages",u64 d.retiredPages),
    ("error_code",u32 d.errorCode),("error_text",.str d.errorText),("valid_mask",u32 d.validMask)]

def gpuJson (s : GpuSnapshot F) : ByteJson F :=
  .obj [("v",.int 2),("ts_ns",u64 s.tsNs),("devices",.arr (s.devices.map deviceJson))]

def perTidJson (t : EbpfPerTidStats) : ByteJson F :=
  .obj [("tid",u32 t.tid),("on_cpu_ns",u64 t.onCpuNs),("nr_sw_vol",u64 t.nrSwVol),
    ("nr_sw_invol",u64 t.nrSwInvol),("io_ops",u64 t.ioOps),("io_bytes",u64 t.ioBytes),
    ("pf_minor",u64 t.pfMinor),("pf_major",u64 t.pfMajor),("lock_waits",u64 t.lockWaits),
    ("lock_lat_ns",u64 t.lockLatNs)]

def ebpfJson (c : EbpfCounters) : ByteJson F :=
  .obj [("v",.int 2),("ts_ns",u64 c.tsNs),("on_cpu_ns_total",u64 c.onCpuNsTotal),
    ("switch_total",u64 c.switchTotal),("io_ops_total",u64 c.ioOpsTotal),
    ("io_bytes_total",u64 c.ioBytesTotal),("minor_faults_total",u64 c.minorFaultsTotal),
    ("major_faults_total",u64 c.majorFaultsTotal),("lock_waits_total",u64 c.lockWaitsTotal),
    ("per_tid",.arr (c.perTid.map perTidJson))]

def featuresJson (f : AnomalyFeatures F) : ByteJson F :=
  .obj [("v",.int 2),("seq",u64 f.seq),("ts_ns",u64 f.tsNs),("host",hostJson f.host),
    ("ebpf",ebpfJson f.ebpf),("top_tasks",.arr (f.topTasks.map processJson)),
    ("network",networkJson f.network),("gpu",gpuJson f.gpu),("cgroup",cgroupJson f.cgroup)]

/-! ## The texts in a request -/

def ifaceTexts (i : NetInterfaceRow) : List (List UInt8) := [i.name,i.source,i.error]

def deviceTexts (d : GpuDeviceRow F) : List (List UInt8) :=
  [d.uuid,d.pciBdf,d.vendor,d.model,d.source,d.errorText]

/-- The other texts: disks, the network, the GPUs and the cgroup. -/
def deviceNames (f : AnomalyFeatures F) : List (List UInt8) :=
  f.host.disks.map DiskStatRow.name++([f.network.stack.source,f.network.stack.error]++
    (f.network.ifaces.flatMap ifaceTexts++(f.network.softnets.map NetSoftnetRow.error++
      (f.gpu.devices.flatMap deviceTexts++[f.cgroup.cgroupPath,f.cgroup.error]))))

/-- The names of tasks. -/
def taskNames (f : AnomalyFeatures F) : List (List UInt8) :=
  f.host.procs.map ProcessRow.comm++f.topTasks.map ProcessRow.comm

section Texts

@[simp] theorem texts_u64 (x : UInt64) : texts (ByteJson.u64 x : ByteJson F) = [] := by
  simp [ByteJson.u64,texts]

@[simp] theorem texts_u32 (x : UInt32) : texts (ByteJson.u32 x : ByteJson F) = [] := by
  simp [ByteJson.u32,texts]

theorem texts_psiWindow (w : PsiWindow F) : texts (psiWindow w) = [] := by
  simp [psiWindow,texts,textsFields]

theorem texts_processJson (r : ProcessRow) : texts (processJson r : ByteJson F) = [r.comm] := by
  cases h : r.rssValid <;> simp [processJson,texts,textsFields,h]

theorem texts_cpuJson (c : CpuStat) : texts (cpuJson c : ByteJson F) = [] := by
  simp [cpuJson,texts,textsFields]

theorem texts_hostJson (s : HostSnapshot F) :
    texts (hostJson s) = s.disks.map DiskStatRow.name++s.procs.map ProcessRow.comm := by
  have hcpus : textsList (s.cpus.map cpuJson : List (ByteJson F)) = [] := by
    simp [textsList_map,texts_cpuJson]
  have hmem : texts (memJson s.mem : ByteJson F) = [] := by simp [memJson,texts,textsFields]
  have hvm : texts (vmJson s.vm : ByteJson F) = [] := by simp [vmJson,texts,textsFields]
  have hdisk (d : DiskStatRow) : texts (diskJson d : ByteJson F) = [d.name] := by
    simp [diskJson,texts,textsFields]
  simp [hostJson,texts,textsFields,textsList_map,hcpus,texts_cpuJson,hmem,hvm,hdisk,
    texts_psiWindow,texts_processJson,← List.map_eq_flatMap]

theorem texts_networkJson (s : NetworkSnapshot) : texts (networkJson s : ByteJson F) =
    [s.stack.source,s.stack.error]++
      (s.ifaces.flatMap ifaceTexts++s.softnets.map NetSoftnetRow.error) := by
  have hstack : texts (stackJson s.stack : ByteJson F) = [s.stack.source,s.stack.error] := by
    simp [stackJson,texts,textsFields]
  have hiface (i : NetInterfaceRow) : texts (ifaceJson i : ByteJson F) = ifaceTexts i := by
    simp [ifaceJson,texts,textsFields,ifaceTexts]
  have hsoftnet (n : NetSoftnetRow) : texts (softnetJson n : ByteJson F) = [n.error] := by
    simp [softnetJson,texts,textsFields]
  simp [networkJson,texts,textsFields,textsList_map,hstack,hiface,hsoftnet,← List.map_eq_flatMap]

theorem texts_gpuJson (s : GpuSnapshot F) :
    texts (gpuJson s) = s.devices.flatMap deviceTexts := by
  have hdevice (d : GpuDeviceRow F) : texts (deviceJson d) = deviceTexts d := by
    simp [deviceJson,texts,textsFields,deviceTexts]
  simp [gpuJson,texts,textsFields,textsList_map,hdevice]

theorem texts_cgroupJson (s : CgroupSnapshot F) :
    texts (cgroupJson s) = [s.cgroupPath,s.error] := by
  have hio (d : CgroupIOStat) : texts (cgroupIoJson d : ByteJson F) = [] := by
    simp [cgroupIoJson,texts,textsFields]
  simp [cgroupJson,texts,textsFields,textsList_map,hio,texts_psiWindow]

theorem texts_ebpfJson (c : EbpfCounters) : texts (ebpfJson c : ByteJson F) = [] := by
  have htid (t : EbpfPerTidStats) : texts (perTidJson t : ByteJson F) = [] := by
    simp [perTidJson,texts,textsFields]
  simp [ebpfJson,texts,textsFields,textsList_map,htid]

/-- The serializer meets the names of the tasks and of the devices, nothing else. -/
theorem featuresJson_dumps_iff (ok : List UInt8 → Bool) (f : AnomalyFeatures F) :
    dumps ok (featuresJson f) = true ↔
      (∀ name ∈ taskNames f, ok name = true) ∧ ∀ name ∈ deviceNames f, ok name = true := by
  have htexts : texts (featuresJson f) = texts (hostJson f.host)++
      (f.topTasks.map ProcessRow.comm++(texts (networkJson f.network : ByteJson F)++
        (texts (gpuJson f.gpu)++texts (cgroupJson f.cgroup)))) := by
    have htop : texts (.arr (f.topTasks.map processJson) : ByteJson F) =
        f.topTasks.map ProcessRow.comm := by
      simp [texts,textsList_map,texts_processJson,← List.map_eq_flatMap]
    rw [featuresJson]
    simp only [texts,textsFields,texts_u64,texts_ebpfJson,List.nil_append,List.append_nil] at htop ⊢
    rw [htop]
  rw [dumps_iff,htexts,texts_hostJson,texts_networkJson,texts_gpuJson,texts_cgroupJson,taskNames,
    deviceNames]
  simp only [List.forall_mem_append]
  tauto

end Texts

end FeatureJson
end ETraceDiag
