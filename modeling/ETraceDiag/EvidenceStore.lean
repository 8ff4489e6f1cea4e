import Mathlib.Data.Rat.Init
import Mathlib.Data.UInt
import ETraceDiag.GroupFold
import ETraceDiag.JsonValue
import ETraceDiag.SqlTable

/-!
# The episode store and the evidence bundle

`OutputWriter` with an open database: the writers of the DEEP tables and `BuildEvidence`, which
reads the rows of one episode back into a JSON bundle. Statements do not fail except on a
duplicate key of `deep_series`; `float` arguments have been widened to doubles.
-/

namespace ETraceDiag
namespace EvidenceStore

open SqlTable GroupFold JsonValue

/-- The counters of a snapshot that go into the bundle. -/
inductive Metric
  | onCpuNs
  | ioOps
  | ioBytes
  | pfMinor
  | pfMajor
  | lockWaits
  | lockLatNs
  | futexWaits
  | futexLatNs
  | syscallCount
  | syscallLatNs
  | runqWaitCount
  | runqWaitNs
  deriving DecidableEq,Repr

def Metric.name : Metric → String
  | .onCpuNs => "on_cpu_ns"
  | .ioOps => "io_ops"
  | .ioBytes => "io_bytes"
  | .pfMinor => "pf_minor"
  | .pfMajor => "pf_major"
  | .lockWaits => "lock_waits"
  | .lockLatNs => "lock_lat_ns"
  | .futexWaits => "futex_waits"
  | .futexLatNs => "futex_lat_ns"
  | .syscallCount => "syscall_count"
  | .syscallLatNs => "syscall_lat_ns"
  | .runqWaitCount => "runq_wait_count"
  | .runqWaitNs => "runq_wait_ns"

/-- In the order of the SELECT and of the process series. -/
def Metric.all : List Metric :=
  [.onCpuNs,.ioOps,.ioBytes,.pfMinor,.pfMajor,.lockWaits,.lockLatNs,.futexWaits,.futexLatNs,
    .syscallCount,.syscallLatNs,.runqWaitCount,.runqWaitNs]

/-- The metrics of the thread series. -/
def Metric.thread : List Metric :=
  [.onCpuNs,.lockWaits,.lockLatNs,.futexWaits,.futexLatNs,.syscallCount,.syscallLatNs,
    .runqWaitCount,.runqWaitNs]

structure CanonicalSnapshot where
  tsNs : UInt64
  tid : UInt32
  tgid : UInt32
  comm : String
  flags : UInt32
  nrSwVol : UInt64
  nrSwInvol : UInt64
  value : Metric → UInt64
  ioHist : List UInt32
  lockHist : List UInt32
  syscallHist : List UInt32
  futexHist : List UInt32
  runqHist : List UInt32

/-- The arguments of `WriteDeepSyscall`. -/
structure SyscallRow (F : Type) where
  tid : UInt32
  id : UInt32
  count : UInt64
  avgUs : F
  p50Us : F
  p99Us : F
  errorCount : UInt64

/-- The arguments of `WriteDeepLock`. -/
structure LockRow where
  addr : UInt64
  count : UInt64
  latSum : UInt64
  sym : Option String

/-- The arguments of `WriteDeepRunq`. -/
structure RunqRow (F : Type) where
  tid : UInt32
  count : UInt64
  avgUs : F
  p50Us : F
  p99Us : F

/-- The arguments of `WriteDeepIoFile`. -/
structure IoFileRow (F : Type) where
  dev : UInt32
  ino : UInt64
  path : Option String
  bytes : UInt64
  ops : UInt32
  errors : UInt64
  latSum : UInt64
  hist : Option (List UInt32)
  p50Us : F
  p99Us : F

/-- The tables that `BuildEvidence` reads. -/
structure Db (F : Type) where
  deepSeries : List (Row F) := []
  deepSyscall : List (Row F) := []
  deepLock : List (Row F) := []
  deepRunq : List (Row F) := []
  deepIofile : List (Row F) := []
  memoryEvents : List (Row F) := []
  oomEvents : List (Row F) := []

structure OutputWriter (F : Type) where
  db : Db F := {}
  ordinal : Int32 := -1

/-- `(uint64_t)(x * 1000.0)`. -/
class Micros (F : Type) extends Double F where
  usToNs : F → UInt64

variable {F : Type}

/-! ## The writers -/

/-- x86_64 numbers; the line of 112 has one name too few, so that the names from 119 on are
those of the number above. -/
def kNames : List String :=
  ["read","write","open","close","stat","fstat","lstat","poll","lseek","mmap","mprotect","munmap",
    "brk","rt_sigaction","rt_sigprocmask","rt_sigreturn","ioctl","pread64","pwrite64","readv",
    "writev","access","pipe","select","sched_yield","mremap","msync","mincore","madvise","shmget",
    "shmat","shmctl","dup","dup2","pause","nanosleep","getitimer","alarm","setitimer","getpid",
    "sendfile","socket","connect","accept","sendto","recvfrom","sendmsg","recvmsg","shutdown",
    "bind","listen","getsockname","getpeername","socketpair","setsockopt","getsockopt","clone",
    "fork","vfork","execve","exit","wait4","kill","uname","semget","semop","semctl","shmdt",
    "msgget","msgsnd","msgrcv","msgctl","fcntl","flock","fsync","fdatasync","truncate",
    "ftruncate","getdents","getcwd","chdir","fchdir","rename","mkdir","rmdir","creat","link",
    "unlink","symlink","readlink","chmod","fchmod","chown","fchown","lchown","umask",
    "gettimeofday","getrlimit","getrusage","sysinfo","times","ptrace","getuid","syslog","getgid",
    "setuid","setgid","geteuid","getegid","setpgid","getppid","getpgrp","setsid","setreuid",
    "setregid","getgroups","setgroups","setresuid","getresgid","getresgid","getpgid","setfsuid",
    "setfsgid","getsid","capget","capset","rt_sigpending","rt_sigtimedwait","rt_sigqueueinfo",
    "rt_sigsuspend","sigaltstack","utime","mknod","uselib","personality","ustat","statfs",
    "fstatfs","sysfs","getpriority","setpriority","sched_setparam","sched_getparam",
    "sched_setscheduler","sched_getscheduler","sched_get_priority_max","sched_get_priority_min",
    "sched_rr_get_interval","mlock","munlock","mlockall","munlockall","vhangup","modify_ldt",
    "pivot_root","_sysctl","prctl","arch_prctl","adjtimex","setrlimit","chroot","sync","acct",
    "settimeofday","mount","umount2","swapon","swapoff","reboot","sethostname","setdomainname",
    "iopl","ioperm","create_module","init_module","delete_module","get_kernel_syms",
    "query_module","quotactl","nfsservctl","getpmsg","putpmsg","afs_syscall","tuxcall","security",
    "gettid","readahead","setxattr","lsetxattr","fsetxattr","getxattr","lgetxattr","fgetxattr",
    "listxattr","llistxattr","flistxattr","removexattr","lremovexattr","fremovexattr","tkill",
    "time","futex","sched_setaffinity","sched_getaffinity","set_thread_area","io_setup",
    "io_destroy","io_getevents","io_submit","io_cancel","get_thread_area","lookup_dcookie",
    "epoll_create","epoll_ctl_old","epoll_wait_old","remap_file_pages","getdents64",
    "set_tid_address","restart_syscall","semtimedop","fadvise64","timer_create","timer_settime",
    "timer_gettime","timer_getoverrun","timer_delete","clock_settime","clock_gettime",
    "clock_getres","clock_nanosleep","exit_group","epoll_wait","epoll_ctl","tgkill","utimes",
    "vserver","mbind","set_mempolicy","get_mempolicy","mq_open","mq_unlink","mq_timedsend",
    "mq_timedreceive","mq_notify","mq_getsetattr","kexec_load","waitid","add_key","request_key",
    "keyctl","ioprio_set","ioprio_get","inotify_init","inotify_add_watch","inotify_rm_watch",
    "migrate_pages","openat","mkdirat","mknodat","fchownat","futimesat","newfstatat","unlinkat",
    "renameat","linkat","symlinkat","readlinkat","fchmodat","faccessat","pselect6","ppoll",
    "unshare","set_robust_list","get_robust_list","splice","tee","sync_file_range","vmsplice",
    "move_pages","utimensat","epoll_pwait","signalfd","timerfd_create","eventfd","fallocate",
    "timerfd_settime","timerfd_gettime","accept4","signalfd4","eventfd2","epoll_create1","dup3",
    "pipe2","inotify_init1","preadv","pwritev","rt_tgsigqueueinfo","perf_event_open","recvmmsg",
    "fanotify_init","fanotify_mark","prlimit64","name_to_handle_at","open_by_handle_at",
    "clock_adjtime","syncfs","sendmmsg","setns","getcpu","process_vm_readv","process_vm_writev",
    "kcmp","finit_module","sched_setattr","sched_getattr","renameat2","seccomp","getrandom",
    "memfd_create","kexec_file_load","bpf","execveat","userfaultfd","membarrier","mlock2",
    "copy_file_range","preadv2","pwritev2","pkey_mprotect","pkey_alloc","pkey_free","statx",
    "io_pgetevents","rseq","pidfd_send_signal","io_uring_setup","io_uring_enter",
    "io_uring_register","open_tree","move_mount","fsopen","fsconfig","fsmount","fspick",
    "pidfd_open","clone3","close_range","openat2","pidfd_getfd","faccessat2","process_madvise",
    "epoll_pwait2","mount_setattr","quotactl_fd","landlock_create_ruleset","landlock_add_rule",
    "landlock_restrict_self","memfd_secret","set_mempolicy_home_node"]

def syscallName (nr : UInt32) : String :=
  if nr < 360 then (kNames[nr.toNat]?).getD ("syscall_"++toString nr.toNat)
  else "syscall_"++toString nr.toNat

def histJson (h : List UInt32) : String :=
  "["++",".intercalate (h.map fun x => toString x.toNat)++"]"

/-- A `uint64_t` and a `uint32_t` as they are bound. -/
def bindU64 (x : UInt64) : Value F := bindInt64 x.toInt64

theorem toInt_toInt64_eq_iff (x : UInt64) :
    x.toInt64.toInt = x.toNat ↔ (x.toNat : ℤ) < 2^63 := by
  have hx := x.toNat_lt
  have hint : x.toInt64.toInt = if 2*x.toNat < 2^64 then (x.toNat : ℤ) else x.toNat-2^64 :=
    BitVec.toInt_eq_toNat_cond x.toBitVec
  rw [hint]
  split <;> omega

def bindU32 (x : UInt32) : Value F := bindInt64 x.toUInt64.toInt64

def bindOrdinal (n : Int32) : Value F := bindInt64 n.toInt64

/-- `snprintf(buf,32,"0x%llx",addr)`. -/
def hexAddr (addr : UInt64) : String := "0x"++String.ofList (Nat.toDigits 16 addr.toNat)

def seriesRow (n : Int32) (post : Bool) (s : CanonicalSnapshot) : Row F :=
  insert
    ["ordinal","phase","ts_ns","tid","tgid","comm","flags","on_cpu_ns","nr_sw_vol","nr_sw_invol",
      "io_ops","io_bytes","io_hist","pf_minor","pf_major","lock_waits","lock_lat_ns","lock_hist",
      "syscall_count","syscall_lat_ns","syscall_hist","futex_waits","futex_lat_ns","futex_hist",
      "runq_wait_count","runq_wait_ns","runq_hist"]
    [bindOrdinal n,bindInt64 (if post then 1 else 0),bindU64 s.tsNs,bindU32 s.tid,
      bindU32 s.tgid,bindText s.comm,bindU32 s.flags,bindU64 (s.value .onCpuNs),
      bindU64 s.nrSwVol,bindU64 s.nrSwInvol,bindU64 (s.value .ioOps),bindU64 (s.value .ioBytes),
      bindText (histJson s.ioHist),bindU64 (s.value .pfMinor),bindU64 (s.value .pfMajor),
      bindU64 (s.value .lockWaits),bindU64 (s.value .lockLatNs),bindText (histJson s.lockHist),
      bindU64 (s.value .syscallCount),bindU64 (s.value .syscallLatNs),
      bindText (histJson s.syscallHist),bindU64 (s.value .futexWaits),
      bindU64 (s.value .futexLatNs),bindText (histJson s.futexHist),
      bindU64 (s.value .runqWaitCount),bindU64 (s.value .runqWaitNs),
      bindText (histJson s.runqHist)]

def syscallRow [Double F] (n : Int32) (r : SyscallRow F) : Row F :=
  insert ["ordinal","tid","syscall","name","count","avg_us","p50_us","p99_us","error_count"]
    [bindOrdinal n,bindU32 r.tid,bindU32 r.id,bindText (syscallName r.id),bindU64 r.count,
      bindDouble r.avgUs,bindDouble r.p50Us,bindDouble r.p99Us,bindU64 r.errorCount]

def lockRow (n : Int32) (r : LockRow) : Row F :=
  insert ["ordinal","addr","sym","count","total_wait_ns","avg_wait_ns"]
    [bindOrdinal n,bindText (hexAddr r.addr),bindText (r.sym.getD ""),bindU64 r.count,
      bindU64 r.latSum,if r.count ≠ 0 then bindU64 (r.latSum/r.count) else bindInt64 0]

def runqRow [Double F] (n : Int32) (r : RunqRow F) : Row F :=
  insert ["ordinal","tid","count","avg_us","p50_us","p99_us"]
    [bindOrdinal n,bindU32 r.tid,bindU64 r.count,bindDouble r.avgUs,bindDouble r.p50Us,
      bindDouble r.p99Us]

def ioFileRow [Double F] (n : Int32) (r : IoFileRow F) : Row F :=
  insert ["ordinal","dev","ino","path","bytes","ops","errors","lat_sum","hist","p50_us","p99_us"]
    [bindOrdinal n,bindU32 r.dev,bindU64 r.ino,bindText (r.path.getD ""),bindU64 r.bytes,
      bindU32 r.ops,bindU64 r.errors,bindU64 r.latSum,
      bindText (match r.hist with | some h => histJson h | none => "[]"),
      bindDouble r.p50Us,bindDouble r.p99Us]

def memoryRow (ts : UInt64) (kswapdActive directReclaim nrReclaimed : Int64) : Row F :=
  insert ["ts_ns","kswapd_active","direct_reclaim","nr_reclaimed"]
    [bindU64 ts,bindInt64 kswapdActive,bindInt64 directReclaim,bindInt64 nrReclaimed]

def oomRow (ts : UInt64) (pid : Int64) (comm : String) : Row F :=
  insert ["ts_ns","pid","comm"] [bindU64 ts,bindInt64 pid,bindText comm]

/-- The integer of a column. -/
def key [Double F] (col : String) (row : Row F) : Int64 := (get row col).toInt64

/-- Two rows agree in the key columns of their table. -/
def sameKey [Double F] (cols : List String) (a b : Row F) : Bool :=
  cols.all fun col => key col a = key col b

/-- An INSERT into a table with a primary key: a duplicate is refused. -/
def insertUnique [Double F] (cols : List String) (row : Row F) (table : List (Row F)) :
    List (Row F) :=
  if table.any (sameKey cols row) then table else table++[row]

inductive Op (F : Type)
  | openDeep (ordinal : Int32)
  | closeDeep
  | writeSeries (post : Bool) (s : CanonicalSnapshot)
  | writeDeepSyscall (r : SyscallRow F)
  | writeDeepLock (r : LockRow)
  | writeDeepRunq (r : RunqRow F)
  | writeDeepIoFile (r : IoFileRow F)
  | writeMemoryEvent (ts : UInt64) (kswapdActive directReclaim nrReclaimed : Int64)
  | writeOomEvent (ts : UInt64) (pid : Int64) (comm : String)

/-- The DEEP writers do nothing outside an episode. -/
def OutputWriter.deep (w : OutputWriter F) (write : Db F → Db F) : OutputWriter F :=
  if w.ordinal < 0 then w else { w with db := write w.db }

def step [Double F] (w : OutputWriter F) : Op F → OutputWriter F
  | .openDeep ordinal => { w with ordinal := ordinal }
  | .closeDeep => { w with ordinal := -1 }
  | .writeSeries post s => w.deep fun db => { db with
      deepSeries := insertUnique ["ordinal","phase","ts_ns","tid"] (seriesRow w.ordinal post s)
        db.deepSeries }
  | .writeDeepSyscall r => w.deep fun db => { db with
      deepSyscall := db.deepSyscall++[syscallRow w.ordinal r] }
  | .writeDeepLock r => w.deep fun db => { db with deepLock := db.deepLock++[lockRow w.ordinal r] }
  | .writeDeepRunq r => w.deep fun db => { db with deepRunq := db.deepRunq++[runqRow w.ordinal r] }
  | .writeDeepIoFile r => w.deep fun db => { db with
      deepIofile := db.deepIofile++[ioFileRow w.ordinal r] }
  | .writeMemoryEvent ts kswapdActive directReclaim nrReclaimed => { w with db := { w.db with
      memoryEvents := insertUnique ["ts_ns"]
        (memoryRow ts kswapdActive directReclaim nrReclaimed) w.db.memoryEvents } }
  | .writeOomEvent ts pid comm => { w with db := { w.db with
      oomEvents := insertUnique ["ts_ns"] (oomRow ts pid comm) w.db.oomEvents } }

/-! ## BuildEvidence -/

/-- `(uint64_t)sqlite3_column_int64(st,i)` and its narrowing to 32 bits. -/
def columnU64 [Double F] (st : List (Value F)) (i : ℕ) : UInt64 := (column st i).toInt64.toUInt64

def columnU32 [Double F] (st : List (Value F)) (i : ℕ) : UInt32 := (columnU64 st i).toUInt32

def columnDouble [Double F] (st : List (Value F)) (i : ℕ) : F := (column st i).toDouble

/-- A JSON string of a text column; a NULL pointer has none. -/
def columnStr [Double F] (st : List (Value F)) (i : ℕ) : JsonValue F :=
  ((column st i).toText.map .str).getD .null

/-- `WHERE ordinal = ?`. -/
def ofOrdinal [Double F] (n : Int32) (table : List (Row F)) : List (Row F) :=
  table.filter fun row => key "ordinal" row = n.toInt64

/-- What the loop over `deep_series` reads of a row. -/
structure SeriesPoint where
  ts : UInt64
  tid : UInt32
  tgid : UInt32
  value : Metric → UInt64

def Metric.index : Metric → ℕ
  | .onCpuNs => 3
  | .ioOps => 4
  | .ioBytes => 5
  | .pfMinor => 6
  | .pfMajor => 7
  | .lockWaits => 8
  | .lockLatNs => 9
  | .futexWaits => 10
  | .futexLatNs => 11
  | .syscallCount => 12
  | .syscallLatNs => 13
  | .runqWaitCount => 14
  | .runqWaitNs => 15

def seriesPoint [Double F] (row : Row F) : SeriesPoint :=
  let st := select ("ts_ns"::"tid"::"tgid"::Metric.all.map Metric.name) row
  { ts := columnU64 st 0
    tid := columnU32 st 1
    tgid := columnU32 st 2
    value := fun m => columnU64 st m.index }

/-- `ORDER BY ts_ns, tid`. -/
def seriesOrder [Double F] (a b : Row F) : Bool :=
  key "ts_ns" a < key "ts_ns" b ||
    (key "ts_ns" a = key "ts_ns" b && key "tid" a ≤ key "tid" b)

def point (entity metric : String) (ts : UInt64) (value : JsonValue F) : JsonValue F :=
  .obj [("entity",.str entity),("metric",.str metric),("ts_ns",u64 ts),("value",value)]

def addValues (a : Metric → UInt64) (p : SeriesPoint) : Metric → UInt64 := fun m => a m+p.value m

/-- `per_ts_proc`. -/
def perTsProc (ps : List SeriesPoint) : List ((UInt64×UInt32)×(Metric → UInt64)) :=
  (groupFold comparePair (fun p => (p.ts,p.tgid)) addValues 0
    (ps.filter (·.tgid ≠ 0))).toList

def procSeries (ps : List SeriesPoint) : List (JsonValue F) :=
  (perTsProc ps).flatMap fun e => Metric.all.map fun m =>
    point ("proc"++toString e.1.2.toNat) m.name e.1.1 (u64 (e.2 m))

/-- A row's share in `tid_activity`. -/
def SeriesPoint.activity (p : SeriesPoint) : UInt64 :=
  p.value .lockLatNs+p.value .futexLatNs+p.value .runqWaitNs+p.value .lockWaits+
    p.value .futexWaits+p.value .runqWaitCount

/-- The busiest threads, at most eight. -/
def rankedTids (ps : List SeriesPoint) : List UInt32 :=
  let activity := (groupFold compare SeriesPoint.tid (fun a p => a+p.activity) 0 ps).toList
  ((activity.mergeSort fun a b => b.2 ≤ a.2).take 8).map Prod.fst

def threadSeries (ps : List SeriesPoint) : List (JsonValue F) :=
  let perTid := groupFold compare SeriesPoint.tid (fun l p => l++[p]) [] ps
  (rankedTids ps).flatMap fun tid => ((perTid[tid]?).getD []).flatMap fun p =>
    Metric.thread.map fun m => point ("t"++toString tid.toNat) m.name p.ts (u64 (p.value m))

/-- A table whose integer primary key is its row id is read in the order of the key. -/
def byTs [Double F] (table : List (Row F)) : List (Row F) :=
  table.mergeSort fun a b => key "ts_ns" a ≤ key "ts_ns" b

def hostSeries [Double F] (row : Row F) : List (JsonValue F) :=
  let st := select ["ts_ns","kswapd_active","direct_reclaim","nr_reclaimed"] row
  let ts := columnU64 st 0
  [point "host" "kswapd_active" ts (.int (column st 1).toInt64.toInt),
    point "host" "direct_reclaim" ts (.int (column st 2).toInt64.toInt),
    point "host" "nr_reclaimed" ts (.int (column st 3).toInt64.toInt)]

def oomEvent [Double F] (row : Row F) : JsonValue F :=
  let st := select ["ts_ns","pid","comm"] row
  .obj [("ts_ns",u64 (columnU64 st 0)),("entity",.str "host"),("kind",.str "kill"),
    ("pid",u64 (columnU64 st 1)),("comm",columnStr st 2)]

def syscallEvent [Double F] (row : Row F) : JsonValue F :=
  let st := select ["tid","name","count","avg_us","p99_us","error_count"] row
  .obj [("entity",.str ("t"++toString (columnU32 st 0).toNat)),("name",columnStr st 1),
    ("count",u64 (columnU64 st 2)),("avg_us",.float (columnDouble st 3)),
    ("p99_us",.float (columnDouble st 4)),("error_count",u64 (columnU64 st 5))]

def lockEvent [Double F] (row : Row F) : JsonValue F :=
  let st := select ["addr","sym","count","total_wait_ns","avg_wait_ns"] row
  .obj [("entity",.str "host"),("addr",u64 (columnU64 st 0)),("sym",columnStr st 1),
    ("count",u64 (columnU64 st 2)),("total_wait_ns",u64 (columnU64 st 3)),
    ("avg_wait_ns",u64 (columnU64 st 4))]

def runqEvent [Micros F] (row : Row F) : JsonValue F :=
  let st := select ["tid","count","avg_us","p50_us","p99_us"] row
  let p99 := columnDouble st 4
  .obj [("entity",.str ("t"++toString (columnU32 st 0).toNat)),("count",u64 (columnU64 st 1)),
    ("avg_us",.float (columnDouble st 2)),("p50_us",.float (columnDouble st 3)),
    ("p99_us",.float p99),("wait_ns",u64 (Micros.usToNs p99))]

def devEntity (dev : UInt32) : String :=
  "dev"++toString (dev >>> 20).toNat++"m"++toString (dev &&& 0xFFFFF).toNat

/-- The p99 is taken from position 9 of a result that ends at position 8. -/
def ioFileEvent [Micros F] (row : Row F) : JsonValue F :=
  let st := select ["dev","ino","path","bytes","ops","errors","lat_sum","p50_us","p99_us"] row
  let p99 := columnDouble st 9
  .obj [("entity",.str (devEntity (columnU32 st 0))),("ino",u64 (columnU64 st 1)),
    ("path",columnStr st 2),("bytes",u64 (columnU64 st 3)),("ops",u64 (columnU64 st 4)),
    ("errors",u64 (columnU64 st 5)),("lat_sum",u64 (columnU64 st 6)),
    ("p50_us",.float (columnDouble st 7)),("p99_us",.float p99),
    ("wait_ns",u64 (Micros.usToNs p99))]

/-- The two halves of the bundle. -/
structure Evidence (F : Type) where
  series : List (JsonValue F)
  oom : List (JsonValue F)
  syscall : List (JsonValue F)
  lock : List (JsonValue F)
  runq : List (JsonValue F)
  iofile : List (JsonValue F)

def Evidence.fields (ev : Evidence F) : List (String × JsonValue F) :=
  [("series",.arr ev.series),
    ("events",.obj [("oom",.arr ev.oom),("syscall",.arr ev.syscall),("lock",.arr ev.lock),
      ("runq",.arr ev.runq),("iofile",.arr ev.iofile)])]

def buildEvidence [Micros F] (db : Db F) (n : Int32) : Evidence F :=
  let ps := ((ofOrdinal n db.deepSeries).mergeSort seriesOrder).map seriesPoint
  { series := procSeries ps++threadSeries ps++(byTs db.memoryEvents).flatMap hostSeries
    oom := (byTs db.oomEvents).map oomEvent
    syscall := (ofOrdinal n db.deepSyscall).map syscallEvent
    lock := (ofOrdinal n db.deepLock).map lockEvent
    runq := (ofOrdinal n db.deepRunq).map runqEvent
    iofile := (ofOrdinal n db.deepIofile).map ioFileEvent }

/-! ## The rows that were stored -/

/-- The arguments of the writes that were stored, each with its episode. -/
structure Ledger (F : Type) where
  ordinal : Int32 := -1
  series : List (Int32 × Bool × CanonicalSnapshot) := []
  syscall : List (Int32 × SyscallRow F) := []
  lock : List (Int32 × LockRow) := []
  runq : List (Int32 × RunqRow F) := []
  iofile : List (Int32 × IoFileRow F) := []

/-- The primary key of `deep_series`. -/
def seriesKey (e : Int32 × Bool × CanonicalSnapshot) : Int32 × Bool × UInt64 × UInt32 :=
  (e.1,e.2.1,e.2.2.tsNs,e.2.2.tid)

def Ledger.deep (l : Ledger F) (write : Ledger F → Ledger F) : Ledger F :=
  if l.ordinal < 0 then l else write l

def Ledger.step (l : Ledger F) : Op F → Ledger F
  | .openDeep ordinal => { l with ordinal := ordinal }
  | .closeDeep => { l with ordinal := -1 }
  | .writeSeries post s => l.deep fun l =>
    let e := (l.ordinal,post,s)
    if l.series.any (fun e' => seriesKey e = seriesKey e') then l
    else { l with series := l.series++[e] }
  | .writeDeepSyscall r => l.deep fun l => { l with syscall := l.syscall++[(l.ordinal,r)] }
  | .writeDeepLock r => l.deep fun l => { l with lock := l.lock++[(l.ordinal,r)] }
  | .writeDeepRunq r => l.deep fun l => { l with runq := l.runq++[(l.ordinal,r)] }
  | .writeDeepIoFile r => l.deep fun l => { l with iofile := l.iofile++[(l.ordinal,r)] }
  | .writeMemoryEvent _ _ _ _ => l
  | .writeOomEvent _ _ _ => l

/-- The entries of one episode. -/
def ofEpisode {α : Type} (n : Int32) (es : List (Int32 × α)) : List α :=
  (es.filter (·.1 = n)).map Prod.snd

/-- The database holds the rows of the ledger. -/
structure Refines [Double F] (w : OutputWriter F) (l : Ledger F) : Prop where
  ordinal : w.ordinal = l.ordinal
  series : w.db.deepSeries = l.series.map fun e => seriesRow e.1 e.2.1 e.2.2
  syscall : w.db.deepSyscall = l.syscall.map fun e => syscallRow e.1 e.2
  lock : w.db.deepLock = l.lock.map fun e => lockRow e.1 e.2
  runq : w.db.deepRunq = l.runq.map fun e => runqRow e.1 e.2
  iofile : w.db.deepIofile = l.iofile.map fun e => ioFileRow e.1 e.2

theorem int32_toInt64_inj {a b : Int32} : a.toInt64 = b.toInt64 ↔ a = b := by
  refine ⟨fun h => ?_,fun h => by rw [h]⟩
  have hback := congrArg Int64.toInt32 h
  simpa using hback

theorem uint64_toInt64_inj {a b : UInt64} : a.toInt64 = b.toInt64 ↔ a = b := by
  refine ⟨fun h => ?_,fun h => by rw [h]⟩
  have hback := congrArg Int64.toUInt64 h
  simpa using hback

theorem sameKey_seriesRow [Double F] (e e' : Int32 × Bool × CanonicalSnapshot) :
    sameKey ["ordinal","phase","ts_ns","tid"] (seriesRow e.1 e.2.1 e.2.2 : Row F)
      (seriesRow e'.1 e'.2.1 e'.2.2) = decide (seriesKey e = seriesKey e') := by
  obtain ⟨n,post,s⟩ := e
  obtain ⟨n',post',s'⟩ := e'
  have hkeys : sameKey ["ordinal","phase","ts_ns","tid"] (seriesRow n post s : Row F)
      (seriesRow n' post' s') = (decide (n.toInt64 = n'.toInt64) &&
        (decide ((if post then 1 else 0 : Int64) = if post' then 1 else 0) &&
          (decide (s.tsNs.toInt64 = s'.tsNs.toInt64) &&
            (decide (s.tid.toUInt64.toInt64 = s'.tid.toUInt64.toInt64) && true)))) := rfl
  have hphase : ((if post then 1 else 0 : Int64) = if post' then 1 else 0) ↔ post = post' := by
    cases post <;> cases post' <;> decide
  rw [hkeys]
  simp only [seriesKey,Prod.mk.injEq,hphase,int32_toInt64_inj,uint64_toInt64_inj,
    UInt32.toUInt64_inj,Bool.and_true,Bool.decide_and]

theorem Refines.deep [Double F] {w : OutputWriter F} {l : Ledger F} (h : Refines w l)
    {write : Db F → Db F} {write' : Ledger F → Ledger F}
    (hwrite : Refines { w with db := write w.db } (write' l)) :
    Refines (w.deep write) (l.deep write') := by
  by_cases hepisode : l.ordinal < 0
  · rw [OutputWriter.deep,Ledger.deep,if_pos (h.ordinal ▸ hepisode),if_pos hepisode]
    exact h
  · rw [OutputWriter.deep,Ledger.deep,if_neg (h.ordinal ▸ hepisode),if_neg hepisode]
    exact hwrite

theorem refines_step [Double F] {w : OutputWriter F} {l : Ledger F} (h : Refines w l)
    (op : Op F) : Refines (step w op) (l.step op) := by
  obtain ⟨hord,hseries,hsyscall,hlock,hrunq,hiofile⟩ := id h
  cases op with
  | openDeep ordinal => exact ⟨rfl,hseries,hsyscall,hlock,hrunq,hiofile⟩
  | closeDeep => exact ⟨rfl,hseries,hsyscall,hlock,hrunq,hiofile⟩
  | writeMemoryEvent ts k d n => exact ⟨hord,hseries,hsyscall,hlock,hrunq,hiofile⟩
  | writeOomEvent ts pid comm => exact ⟨hord,hseries,hsyscall,hlock,hrunq,hiofile⟩
  | writeSeries post s =>
    have hany : w.db.deepSeries.any (sameKey ["ordinal","phase","ts_ns","tid"]
        (seriesRow l.ordinal post s)) =
        l.series.any (fun e => seriesKey (l.ordinal,post,s) = seriesKey e) := by
      rw [hseries,List.any_map]
      exact List.any_congr rfl fun e => sameKey_seriesRow (l.ordinal,post,s) e
    simp only [step,Ledger.step]
    apply h.deep
    simp only [insertUnique,hord,hany]
    split
    · exact ⟨rfl,hseries,hsyscall,hlock,hrunq,hiofile⟩
    · exact ⟨rfl,by simp [hseries],hsyscall,hlock,hrunq,hiofile⟩
  | writeDeepSyscall r =>
    simp only [step,Ledger.step]
    exact h.deep ⟨hord,hseries,by simp [hsyscall,hord],hlock,hrunq,hiofile⟩
  | writeDeepLock r =>
    simp only [step,Ledger.step]
    exact h.deep ⟨hord,hseries,hsyscall,by simp [hlock,hord],hrunq,hiofile⟩
  | writeDeepRunq r =>
    simp only [step,Ledger.step]
    exact h.deep ⟨hord,hseries,hsyscall,hlock,by simp [hrunq,hord],hiofile⟩
  | writeDeepIoFile r =>
    simp only [step,Ledger.step]
    exact h.deep ⟨hord,hseries,hsyscall,hlock,hrunq,by simp [hiofile,hord]⟩

/-- The writers refine the ledger over every run. -/
theorem refines_run [Double F] (ops : List (Op F)) : ∀ {w : OutputWriter F} {l : Ledger F},
    Refines w l → Refines (ops.foldl step w) (ops.foldl Ledger.step l) := by
  induction ops with
  | nil => exact fun h => h
  | cons op ops ih => exact fun h => ih (refines_step h op)

theorem refines_init [Double F] : Refines ({} : OutputWriter F) {} :=
  ⟨rfl,rfl,rfl,rfl,rfl,rfl⟩

/-! ## What comes back -/

def CanonicalSnapshot.point (s : CanonicalSnapshot) : SeriesPoint :=
  { ts := s.tsNs, tid := s.tid, tgid := s.tgid, value := s.value }

/-- The object that states a stored row. -/
def SyscallRow.json (r : SyscallRow F) : JsonValue F :=
  .obj [("entity",.str ("t"++toString r.tid.toNat)),("name",.str (syscallName r.id)),
    ("count",u64 r.count),("avg_us",.float r.avgUs),("p99_us",.float r.p99Us),
    ("error_count",u64 r.errorCount)]

def LockRow.avgWait (r : LockRow) : UInt64 := if r.count ≠ 0 then r.latSum/r.count else 0

def LockRow.json (r : LockRow) : JsonValue F :=
  .obj [("entity",.str "host"),("addr",u64 r.addr),("sym",.str (r.sym.getD "")),
    ("count",u64 r.count),("total_wait_ns",u64 r.latSum),("avg_wait_ns",u64 r.avgWait)]

def RunqRow.json [Micros F] (r : RunqRow F) : JsonValue F :=
  .obj [("entity",.str ("t"++toString r.tid.toNat)),("count",u64 r.count),
    ("avg_us",.float r.avgUs),("p50_us",.float r.p50Us),("p99_us",.float r.p99Us),
    ("wait_ns",u64 (Micros.usToNs r.p99Us))]

def IoFileRow.json [Micros F] (r : IoFileRow F) : JsonValue F :=
  .obj [("entity",.str (devEntity r.dev)),("ino",u64 r.ino),("path",.str (r.path.getD "")),
    ("bytes",u64 r.bytes),("ops",u64 r.ops.toUInt64),("errors",u64 r.errors),
    ("lat_sum",u64 r.latSum),("p50_us",.float r.p50Us),("p99_us",.float r.p99Us),
    ("wait_ns",u64 (Micros.usToNs r.p99Us))]

theorem seriesPoint_seriesRow [Double F] (n : Int32) (post : Bool) (s : CanonicalSnapshot) :
    seriesPoint (seriesRow n post s : Row F) = s.point := by
  have hvalue : (seriesPoint (seriesRow n post s : Row F)).value = s.value := by
    funext m
    cases m <;> rfl
  have hcolumns : seriesPoint (seriesRow n post s : Row F) =
      ⟨s.tsNs,s.tid.toUInt64.toUInt32,s.tgid.toUInt64.toUInt32,
        (seriesPoint (seriesRow n post s : Row F)).value⟩ := rfl
  rw [hcolumns,hvalue,UInt32.toUInt32_toUInt64,UInt32.toUInt32_toUInt64]
  rfl

theorem syscallEvent_syscallRow [Double F] (n : Int32) (r : SyscallRow F) :
    syscallEvent (syscallRow n r) =
      { r with avgUs := roundTrip r.avgUs, p99Us := roundTrip r.p99Us }.json := by
  have hcolumns : syscallEvent (syscallRow n r) =
      { r with
        tid := r.tid.toUInt64.toUInt32
        avgUs := (bindDouble r.avgUs).toDouble
        p99Us := (bindDouble r.p99Us).toDouble }.json := rfl
  simp only [hcolumns,toDouble_bindDouble,UInt32.toUInt32_toUInt64]

/-- The address is stored as a hexadecimal text and read as an integer. -/
theorem lockEvent_lockRow [Double F] (n : Int32) (r : LockRow) :
    lockEvent (lockRow n r : Row F) = { r with addr := 0 }.json := by
  have havg : (if r.count ≠ 0 then bindU64 (r.latSum/r.count) else bindInt64 0 : Value F) =
      bindU64 r.avgWait := by
    unfold LockRow.avgWait
    split <;> rfl
  have hcolumns : lockEvent (lockRow n r : Row F) =
      .obj [("entity",.str "host"),
        ("addr",u64 (bindText (hexAddr r.addr) : Value F).toInt64.toUInt64),
        ("sym",.str (r.sym.getD "")),("count",u64 r.count),("total_wait_ns",u64 r.latSum),
        ("avg_wait_ns",u64 (if r.count ≠ 0 then bindU64 (r.latSum/r.count)
          else bindInt64 0 : Value F).toInt64.toUInt64)] := rfl
  rw [hcolumns,havg,hexAddr,toInt64_hex]
  rfl

theorem runqEvent_runqRow [Micros F] (n : Int32) (r : RunqRow F) :
    runqEvent (runqRow n r) =
      { r with
        avgUs := roundTrip r.avgUs
        p50Us := roundTrip r.p50Us
        p99Us := roundTrip r.p99Us }.json := by
  have hcolumns : runqEvent (runqRow n r) =
      { r with
        tid := r.tid.toUInt64.toUInt32
        avgUs := (bindDouble r.avgUs).toDouble
        p50Us := (bindDouble r.p50Us).toDouble
        p99Us := (bindDouble r.p99Us).toDouble }.json := rfl
  simp only [hcolumns,toDouble_bindDouble,UInt32.toUInt32_toUInt64]

/-- The position past the last column reads as zero. -/
theorem ioFileEvent_ioFileRow [Micros F] (n : Int32) (r : IoFileRow F) :
    ioFileEvent (ioFileRow n r) =
      { r with p50Us := roundTrip r.p50Us, p99Us := Double.zero }.json := by
  have hcolumns : ioFileEvent (ioFileRow n r) =
      { r with
        dev := r.dev.toUInt64.toUInt32
        p50Us := (bindDouble r.p50Us).toDouble
        p99Us := Double.zero }.json := rfl
  simp only [hcolumns,toDouble_bindDouble,UInt32.toUInt32_toUInt64]

theorem map_ofOrdinal [Double F] {α β : Type} {row : Int32 → α → Row F} {event : Row F → β}
    {g : α → β} (hkey : ∀ n r, key "ordinal" (row n r) = n.toInt64)
    (hevent : ∀ n r, event (row n r) = g r) (n : Int32) (es : List (Int32 × α)) :
    (ofOrdinal n (es.map fun e => row e.1 e.2)).map event = (ofEpisode n es).map g := by
  induction es with
  | nil => rfl
  | cons e es ih =>
    simp only [ofOrdinal,ofEpisode,List.map_cons,List.filter_cons,hkey,int32_toInt64_inj] at ih ⊢
    split <;> simp [hevent,ih]

/-! ## The series -/

/-- The points of an episode as they were stored. -/
def Ledger.points (l : Ledger F) (n : Int32) : List SeriesPoint :=
  (ofEpisode n l.series).map fun e => e.2.point

/-- A counter of one process at one time. -/
def total (ps : List SeriesPoint) (ts : UInt64) (tgid : UInt32) (m : Metric) : UInt64 :=
  ((ps.filter fun p => (p.ts,p.tgid) = (ts,tgid)).map (·.value m)).sum

theorem Metric.mem_all (m : Metric) : m ∈ Metric.all := by cases m <;> decide

theorem foldl_addValues (ps : List SeriesPoint) : ∀ a : Metric → UInt64,
    ps.foldl addValues a = fun m => a m+(ps.map (·.value m)).sum := by
  induction ps with
  | nil =>
    intro a
    funext m
    simp
  | cons p ps ih =>
    intro a
    funext m
    simp only [List.foldl_cons,ih,addValues,List.map_cons,List.sum_cons,UInt64.add_assoc]

theorem mem_perTsProc {ps : List SeriesPoint} {p : SeriesPoint} (hp : p ∈ ps)
    (htgid : p.tgid ≠ 0) : ((p.ts,p.tgid),total ps p.ts p.tgid) ∈ perTsProc ps := by
  have hgroup : (ps.filter (·.tgid ≠ 0)).filter (fun q => (q.ts,q.tgid) = (p.ts,p.tgid)) =
      ps.filter fun q => (q.ts,q.tgid) = (p.ts,p.tgid) := by
    rw [List.filter_filter]
    refine List.filter_congr fun q _ => ?_
    by_cases hq : (q.ts,q.tgid) = (p.ts,p.tgid)
    · have hqtgid : q.tgid ≠ 0 := by rw [(Prod.mk.inj hq).2]; exact htgid
      simp [hq,hqtgid]
    · simp [hq]
  rw [perTsProc,mem_groupFold,hgroup,foldl_addValues]
  refine ⟨⟨p,List.mem_filter.mpr ⟨hp,by simpa using htgid⟩,rfl⟩,?_⟩
  funext m
  simp [total]

theorem mem_procSeries {ps : List SeriesPoint} {p : SeriesPoint} (hp : p ∈ ps)
    (htgid : p.tgid ≠ 0) (m : Metric) :
    (point ("proc"++toString p.tgid.toNat) m.name p.ts (u64 (total ps p.ts p.tgid m)) :
      JsonValue F) ∈ procSeries ps :=
  List.mem_flatMap.mpr ⟨_,mem_perTsProc hp htgid,
    List.mem_map.mpr ⟨m,m.mem_all,rfl⟩⟩

theorem foldl_append (ps : List SeriesPoint) : ∀ l : List SeriesPoint,
    ps.foldl (fun l p => l++[p]) l = l++ps := by
  induction ps with
  | nil => intro l; simp
  | cons p ps ih => intro l; simp [ih]

theorem mem_threadSeries {ps : List SeriesPoint} {p : SeriesPoint} (hp : p ∈ ps)
    (hrank : p.tid ∈ rankedTids ps) {m : Metric} (hm : m ∈ Metric.thread) :
    (point ("t"++toString p.tid.toNat) m.name p.ts (u64 (p.value m)) : JsonValue F) ∈
      threadSeries ps := by
  have hgroup : p ∈ ps.filter (·.tid = p.tid) := List.mem_filter.mpr ⟨hp,by simp⟩
  have hbuffer : (groupFold compare SeriesPoint.tid (fun l p => l++[p]) [] ps)[p.tid]? =
      some (ps.filter (·.tid = p.tid)) := by
    rw [groupFold,getElem?_foldl,if_neg (List.ne_nil_of_mem hgroup),foldl_append]
    simp
  refine List.mem_flatMap.mpr ⟨p.tid,hrank,List.mem_flatMap.mpr ⟨p,?_,List.mem_map.mpr
    ⟨m,hm,rfl⟩⟩⟩
  rw [hbuffer]
  exact hgroup

theorem total_perm {ps qs : List SeriesPoint} (h : ps.Perm qs) : total ps = total qs := by
  funext ts tgid m
  refine ((h.filter _).map _).foldr_eq' (fun x _ y _ z => ?_) 0
  rw [← UInt64.add_assoc,UInt64.add_comm y,UInt64.add_assoc]

theorem rankedTids_perm {ps qs : List SeriesPoint} (h : ps.Perm qs) :
    rankedTids ps = rankedTids qs := by
  have hcomm : ∀ (a : UInt64) (p q : SeriesPoint),
      a+p.activity+q.activity = a+q.activity+p.activity := by
    intro a p q
    rw [UInt64.add_assoc,UInt64.add_comm p.activity,UInt64.add_assoc]
  have hactivity : (groupFold compare SeriesPoint.tid (fun a p => a+p.activity) 0 ps).toList =
      (groupFold compare SeriesPoint.tid (fun a p => a+p.activity) (0 : UInt64) qs).toList :=
    toList_groupFold_perm _ hcomm _ h
  simp only [rankedTids,hactivity]

/-- Sorting and selecting give the stored points back. -/
theorem points_perm [Double F] {w : OutputWriter F} {l : Ledger F} (h : Refines w l) (n : Int32) :
    (((ofOrdinal n w.db.deepSeries).mergeSort seriesOrder).map seriesPoint).Perm (l.points n) := by
  have hpoints : (ofOrdinal n (l.series.map fun e => (seriesRow e.1 e.2.1 e.2.2 : Row F))).map
      seriesPoint = (ofEpisode n l.series).map fun e => e.2.point :=
    map_ofOrdinal (fun _ _ => rfl) (fun n e => seriesPoint_seriesRow n e.1 e.2) n l.series
  rw [Ledger.points,← hpoints,← h.series]
  exact (List.mergeSort_perm _ _).map _

/-! ## The round trip -/

/-- The bundle of an episode states the rows that were stored. -/
structure RoundTrip [Micros F] (ev : Evidence F) (l : Ledger F) (n : Int32) : Prop where
  procs : ∀ p ∈ l.points n, p.tgid ≠ 0 → ∀ m : Metric,
    point ("proc"++toString p.tgid.toNat) m.name p.ts
      (u64 (total (l.points n) p.ts p.tgid m)) ∈ ev.series
  threads : ∀ p ∈ l.points n, p.tid ∈ rankedTids (l.points n) → ∀ m ∈ Metric.thread,
    point ("t"++toString p.tid.toNat) m.name p.ts (u64 (p.value m)) ∈ ev.series
  syscall : ev.syscall = (ofEpisode n l.syscall).map SyscallRow.json
  lock : ev.lock = (ofEpisode n l.lock).map LockRow.json
  runq : ev.runq = (ofEpisode n l.runq).map RunqRow.json
  iofile : ev.iofile = (ofEpisode n l.iofile).map IoFileRow.json

/-- The rows that come back as they are. -/
def SyscallRow.Kept [Double F] (r : SyscallRow F) : Prop :=
  Double.isNan r.avgUs = false ∧ Double.isNan r.p99Us = false

def LockRow.Kept (r : LockRow) : Prop := r.addr = 0

def RunqRow.Kept [Double F] (r : RunqRow F) : Prop :=
  Double.isNan r.avgUs = false ∧ Double.isNan r.p50Us = false ∧ Double.isNan r.p99Us = false

def IoFileRow.Kept [Double F] (r : IoFileRow F) : Prop :=
  Double.isNan r.p50Us = false ∧ r.p99Us = Double.zero

theorem syscallEvents_eq_iff [Double F] {w : OutputWriter F} {l : Ledger F} (h : Refines w l)
    (n : Int32) : (ofOrdinal n w.db.deepSyscall).map syscallEvent =
      (ofEpisode n l.syscall).map SyscallRow.json ↔ ∀ r ∈ ofEpisode n l.syscall, r.Kept := by
  rw [h.syscall,map_ofOrdinal (fun _ _ => rfl) syscallEvent_syscallRow,List.map_inj_left]
  simp [SyscallRow.json,SyscallRow.Kept,roundTrip_eq_iff]

theorem lockEvents_eq_iff [Double F] {w : OutputWriter F} {l : Ledger F} (h : Refines w l)
    (n : Int32) : (ofOrdinal n w.db.deepLock).map lockEvent =
      (ofEpisode n l.lock).map LockRow.json ↔ ∀ r ∈ ofEpisode n l.lock, r.Kept := by
  rw [h.lock,map_ofOrdinal (fun _ _ => rfl) lockEvent_lockRow,List.map_inj_left]
  simp [LockRow.json,LockRow.Kept,LockRow.avgWait,u64_inj,eq_comm]

theorem runqEvents_eq_iff [Micros F] {w : OutputWriter F} {l : Ledger F} (h : Refines w l)
    (n : Int32) : (ofOrdinal n w.db.deepRunq).map runqEvent =
      (ofEpisode n l.runq).map RunqRow.json ↔ ∀ r ∈ ofEpisode n l.runq, r.Kept := by
  rw [h.runq,map_ofOrdinal (fun _ _ => rfl) runqEvent_runqRow,List.map_inj_left]
  refine forall₂_congr fun r _ => ?_
  have hwait : roundTrip r.p99Us = r.p99Us →
      Micros.usToNs (roundTrip r.p99Us) = Micros.usToNs r.p99Us := congrArg _
  simp [RunqRow.json,RunqRow.Kept,← roundTrip_eq_iff,u64_inj]
  grind

theorem ioFileEvents_eq_iff [Micros F] {w : OutputWriter F} {l : Ledger F} (h : Refines w l)
    (n : Int32) : (ofOrdinal n w.db.deepIofile).map ioFileEvent =
      (ofEpisode n l.iofile).map IoFileRow.json ↔ ∀ r ∈ ofEpisode n l.iofile, r.Kept := by
  rw [h.iofile,map_ofOrdinal (fun _ _ => rfl) ioFileEvent_ioFileRow,List.map_inj_left]
  refine forall₂_congr fun r _ => ?_
  simp [IoFileRow.json,IoFileRow.Kept,← roundTrip_eq_iff,u64_inj]
  grind

theorem roundTrip_iff [Micros F] {w : OutputWriter F} {l : Ledger F} (h : Refines w l)
    (n : Int32) : RoundTrip (buildEvidence w.db n) l n ↔
      (∀ r ∈ ofEpisode n l.syscall, r.Kept) ∧ (∀ r ∈ ofEpisode n l.lock, r.Kept) ∧
        (∀ r ∈ ofEpisode n l.runq, r.Kept) ∧ ∀ r ∈ ofEpisode n l.iofile, r.Kept := by
  have hpoints := points_perm h n
  rw [← syscallEvents_eq_iff h,← lockEvents_eq_iff h,← runqEvents_eq_iff h,
    ← ioFileEvents_eq_iff h]
  refine ⟨fun hr => ⟨hr.syscall,hr.lock,hr.runq,hr.iofile⟩,fun hk => ?_⟩
  obtain ⟨hsyscall,hlock,hrunq,hiofile⟩ := hk
  refine ⟨fun p hp htgid m => ?_,fun p hp hrank m hm => ?_,hsyscall,hlock,hrunq,hiofile⟩
  · rw [← total_perm hpoints]
    exact List.mem_append_left _ (List.mem_append_left _
      (mem_procSeries (hpoints.mem_iff.mpr hp) htgid m))
  · rw [← rankedTids_perm hpoints] at hrank
    exact List.mem_append_left _ (List.mem_append_right _
      (mem_threadSeries (hpoints.mem_iff.mpr hp) hrank hm))

/-- The bundle states the stored rows exactly when no lock has an address, no file has a p99
and no double is a NaN. -/
theorem evidence_roundTrip_iff [Micros F] (ops : List (Op F)) (n : Int32) :
    RoundTrip (buildEvidence (ops.foldl step {}).db n) (ops.foldl Ledger.step {}) n ↔
      (∀ r ∈ ofEpisode n (ops.foldl Ledger.step {}).syscall, r.Kept) ∧
        (∀ r ∈ ofEpisode n (ops.foldl Ledger.step {}).lock, r.Kept) ∧
        (∀ r ∈ ofEpisode n (ops.foldl Ledger.step {}).runq, r.Kept) ∧
        ∀ r ∈ ofEpisode n (ops.foldl Ledger.step {}).iofile, r.Kept :=
  roundTrip_iff (refines_run ops refines_init) n

/-- Doubles that are exact. -/
instance : Micros ℚ where
  zero := 0
  isNan _ := false
  ofInt64 i := i.toInt
  ofText s := textToInt s.toList
  toInt64 x := Int64.ofIntClamp (x.num.tdiv x.den)
  toText x := toString x
  isNan_zero := rfl
  usToNs x := UInt64.ofInt ((1000*x).num.tdiv (1000*x).den)

/-- A contended kernel mutex. -/
def contendedLock : List (Op ℚ) :=
  [.openDeep 1,.writeDeepLock ⟨0xffffffff81a2b3c0,3,3000000,some "mutex_lock"⟩]

theorem evidence_lock_addr_lost :
    ¬ ∀ (ops : List (Op ℚ)) (n : Int32),
      RoundTrip (buildEvidence (ops.foldl step {}).db n) (ops.foldl Ledger.step {}) n := by
  intro h
  have hlock := ((roundTrip_iff (refines_run contendedLock refines_init) 1).mp
    (h contendedLock 1)).2.1
  have hmem : ⟨0xffffffff81a2b3c0,3,3000000,some "mutex_lock"⟩ ∈
      ofEpisode 1 (contendedLock.foldl Ledger.step {}).lock := List.mem_singleton.mpr rfl
  exact absurd (hlock _ hmem) (by simp [LockRow.Kept])

end EvidenceStore
end ETraceDiag
