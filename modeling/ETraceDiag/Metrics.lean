import ETraceDiag.ProcessTable

/-!
# Metric records

The snapshots of `metrics.h`. Presence is fixed for each record: a bit of its mask or a flag says
that a value could be read, zero is only a measured zero. Texts are bytes, and a `char` array is
the text in front of its NUL.
-/

namespace ETraceDiag
namespace Metrics

structure CpuStat where
  user : UInt64 := 0
  nice : UInt64 := 0
  system : UInt64 := 0
  idle : UInt64 := 0
  iowait : UInt64 := 0
  irq : UInt64 := 0
  softirq : UInt64 := 0
  steal : UInt64 := 0
  guest : UInt64 := 0
  guestNice : UInt64 := 0

structure LoadAvg (F : Type) where
  load1 : F
  load5 : F
  load15 : F
  nrRunning : UInt32 := 0
  nrThreads : UInt32 := 0

/-- Bits 0 to 13 of the mask are the fields in their order. -/
structure MemInfo where
  memTotalKb : UInt64 := 0
  memAvailableKb : UInt64 := 0
  memFreeKb : UInt64 := 0
  buffersKb : UInt64 := 0
  cachedKb : UInt64 := 0
  swapTotalKb : UInt64 := 0
  swapFreeKb : UInt64 := 0
  anonPagesKb : UInt64 := 0
  sreclaimableKb : UInt64 := 0
  shmemKb : UInt64 := 0
  dirtyKb : UInt64 := 0
  writebackKb : UInt64 := 0
  commitLimitKb : UInt64 := 0
  committedAsKb : UInt64 := 0
  validMask : UInt32 := 0

/-- Bits 0 to 10 of the mask are the fields in their order. -/
structure VmStatSnapshot where
  pgfault : UInt64 := 0
  pgmajfault : UInt64 := 0
  pswpin : UInt64 := 0
  pswpout : UInt64 := 0
  pgscanKswapd : UInt64 := 0
  pgscanDirect : UInt64 := 0
  pgstealKswapd : UInt64 := 0
  pgstealDirect : UInt64 := 0
  workingsetRefault : UInt64 := 0
  nrDirty : UInt64 := 0
  nrWriteback : UInt64 := 0
  validMask : UInt32 := 0

structure PsiWindow (F : Type) where
  avg10 : F
  avg60 : F
  avg300 : F
  someValid : Bool := false
  fullValid : Bool := false

structure PsiSnapshot (F : Type) where
  cpu : PsiWindow F
  io : PsiWindow F
  memory : PsiWindow F

/-- Bits 0 to 10 of the mask are the counters in their order. -/
structure DiskStatRow where
  major : UInt32 := 0
  minor : UInt32 := 0
  name : List UInt8 := []
  readsCompleted : UInt64 := 0
  readsMerged : UInt64 := 0
  sectorsRead : UInt64 := 0
  readTicksMs : UInt64 := 0
  writesCompleted : UInt64 := 0
  writesMerged : UInt64 := 0
  sectorsWritten : UInt64 := 0
  writeTicksMs : UInt64 := 0
  iosInFlight : UInt64 := 0
  ioTicksMs : UInt64 := 0
  weightedTicksMs : UInt64 := 0
  validMask : UInt32 := 0

structure HostSnapshot (F : Type) where
  tsNs : UInt64 := 0
  cpus : List CpuStat := []
  total : CpuStat := {}
  load : LoadAvg F
  mem : MemInfo := {}
  vm : VmStatSnapshot := {}
  psi : PsiSnapshot F
  disks : List DiskStatRow := []
  procs : List ProcessTable.ProcessRow := []
  ctxt : UInt64 := 0
  processes : UInt64 := 0
  procsRunning : UInt64 := 0
  procsBlocked : UInt64 := 0

structure NetInterfaceRow where
  ifindex : UInt32 := 0
  name : List UInt8 := []
  source : List UInt8 := []
  /-- -1 when missing. -/
  operstate : Int32 := -1
  mtu : UInt32 := 0
  rxBytes : UInt64 := 0
  rxPackets : UInt64 := 0
  rxErrors : UInt64 := 0
  rxDropped : UInt64 := 0
  txBytes : UInt64 := 0
  txPackets : UInt64 := 0
  txErrors : UInt64 := 0
  txDropped : UInt64 := 0
  collisions : UInt64 := 0
  carrierChanges : UInt64 := 0
  rxNohandler : UInt64 := 0
  valid : Bool := false
  error : List UInt8 := []

/-- `valid` is about the counters, `tcpStatesValid` about the state summary behind them. -/
structure NetStackSnapshot where
  netnsIno : UInt64 := 0
  source : List UInt8 := []
  valid : Bool := false
  error : List UInt8 := []
  activeOpens : UInt64 := 0
  passiveOpens : UInt64 := 0
  attemptFails : UInt64 := 0
  estabResets : UInt64 := 0
  currEstab : UInt64 := 0
  inSegs : UInt64 := 0
  outSegs : UInt64 := 0
  retransSegs : UInt64 := 0
  inErrs : UInt64 := 0
  outRsts : UInt64 := 0
  listenOverflows : UInt64 := 0
  listenDrops : UInt64 := 0
  backlogDrop : UInt64 := 0
  rcvQDrop : UInt64 := 0
  synRetrans : UInt64 := 0
  timeouts : UInt64 := 0
  memoryPressures : UInt64 := 0
  udpInDatagrams : UInt64 := 0
  udpNoPorts : UInt64 := 0
  udpInErrors : UInt64 := 0
  udpOutDatagrams : UInt64 := 0
  udpRcvbufErrors : UInt64 := 0
  udpSndbufErrors : UInt64 := 0
  tcpSockMem : UInt64 := 0
  udpSockMem : UInt64 := 0
  fragSockMem : UInt64 := 0
  tcpStateEstablished : UInt64 := 0
  tcpStateSynSent : UInt64 := 0
  tcpStateSynRecv : UInt64 := 0
  tcpStateFinWait1 : UInt64 := 0
  tcpStateFinWait2 : UInt64 := 0
  tcpStateTimeWait : UInt64 := 0
  tcpStateClose : UInt64 := 0
  tcpStateCloseWait : UInt64 := 0
  tcpStateLastAck : UInt64 := 0
  tcpStateListen : UInt64 := 0
  tcpStateClosing : UInt64 := 0
  rqueueBytes : UInt64 := 0
  wqueueBytes : UInt64 := 0
  tcpStatesValid : Bool := false

structure NetSoftnetRow where
  cpuIdx : UInt32 := 0
  processed : UInt64 := 0
  dropped : UInt64 := 0
  timeSqueeze : UInt64 := 0
  receivedRps : UInt64 := 0
  flowLimitCount : UInt64 := 0
  backlogLen : UInt64 := 0
  netRxSoftirq : UInt64 := 0
  netTxSoftirq : UInt64 := 0
  valid : Bool := false
  error : List UInt8 := []

structure NetworkSnapshot where
  tsNs : UInt64 := 0
  enabled : Bool := true
  stack : NetStackSnapshot := {}
  ifaces : List NetInterfaceRow := []
  softnets : List NetSoftnetRow := []

structure CgroupIOStat where
  major : UInt32 := 0
  minor : UInt32 := 0
  rbytes : UInt64 := 0
  wbytes : UInt64 := 0
  rios : UInt64 := 0
  wios : UInt64 := 0
  dbytes : UInt64 := 0
  dios : UInt64 := 0

structure CgroupSnapshot (F : Type) where
  tsNs : UInt64 := 0
  available : Bool := false
  cgroupPath : List UInt8 := []
  error : List UInt8 := []
  cpuUsageUsec : UInt64 := 0
  userUsec : UInt64 := 0
  systemUsec : UInt64 := 0
  nrPeriods : UInt64 := 0
  nrThrottled : UInt64 := 0
  throttledUsec : UInt64 := 0
  cpuValid : Bool := false
  memoryCurrentBytes : UInt64 := 0
  memoryMaxBytes : UInt64 := 0
  memoryMaxUnlimited : Bool := false
  memoryEventsLow : UInt64 := 0
  memoryEventsHigh : UInt64 := 0
  memoryEventsMax : UInt64 := 0
  memoryEventsOom : UInt64 := 0
  memoryEventsOomKill : UInt64 := 0
  memoryValid : Bool := false
  cpuPsi : PsiWindow F
  memoryPsi : PsiWindow F
  io : List CgroupIOStat := []

/-- Bits of the mask: 0 util, 1 mem_util, 2 and 3 memory used and total, 4 temperature, 5 and 6
power and its limit, 7 energy, 8 and 9 clocks, 10 and 11 PCIe, 12 and 13 encoder and decoder,
14 throttle, 15 and 16 ECC, 17 retired pages. -/
structure GpuDeviceRow (F : Type) where
  uuid : List UInt8 := []
  pciBdf : List UInt8 := []
  vendor : List UInt8 := []
  model : List UInt8 := []
  source : List UInt8 := []
  available : Bool := false
  isMig : Bool := false
  utilPct : F
  memUtilPct : F
  memUsedBytes : UInt64 := 0
  memTotalBytes : UInt64 := 0
  temperatureC : F
  powerW : F
  powerLimitW : F
  energyMj : UInt64 := 0
  smClockMhz : UInt32 := 0
  memClockMhz : UInt32 := 0
  pcieRxKbps : UInt64 := 0
  pcieTxKbps : UInt64 := 0
  encoderUtilPct : F
  decoderUtilPct : F
  throttleReasons : UInt64 := 0
  eccSbeTotal : UInt64 := 0
  eccDbeTotal : UInt64 := 0
  retiredPages : UInt64 := 0
  errorCode : UInt32 := 0
  errorText : List UInt8 := []
  validMask : UInt32 := 0

structure GpuSnapshot (F : Type) where
  tsNs : UInt64 := 0
  devices : List (GpuDeviceRow F) := []

/-- `mask & (1u << i)`. -/
def bit (mask : UInt32) (i : UInt32) : Bool := mask &&& 1 <<< i ≠ 0

end Metrics
end ETraceDiag
