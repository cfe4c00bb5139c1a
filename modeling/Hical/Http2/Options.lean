namespace Hical.Http2

def kMaxHeaderFields : Nat := 64
def kHeaderFieldOverheadBytes : Nat := 32
def kDefaultWindowSize : Nat := 65535
def kMaxWindowSize : Nat := 0x7fffffff
def kMinFrameBytes : Nat := 16384
def kMaxFrameBytes : Nat := 0xffffff

/-- `Http2Options`, with the durations in milliseconds. -/
structure Http2Options where
  maxConcurrentStreams : UInt32 := 64
  maxApplicationTasks : UInt32 := 64
  maxServerApplicationTasks : UInt64 := 4096
  maxHeaderBytes : UInt64 := 8 * 1024
  maxHeaderFields : UInt64 := 64
  maxBodyBytes : UInt64 := 1024 * 1024
  maxConnectionReceiveBytes : UInt64 := 8 * 1024 * 1024
  maxConnectionSendBytes : UInt64 := 8 * 1024 * 1024
  maxOutputBatchBytes : UInt64 := 64 * 1024
  maxFilePrefetchBytes : UInt64 := 64 * 1024
  maxResponseBytes : UInt64 := 16 * 1024 * 1024
  maxClientConnectionReceiveBytes : UInt64 := 32 * 1024 * 1024
  maxConnectionsPerOrigin : UInt64 := 2
  maxQueuedRequestsPerOrigin : UInt64 := 256
  initialStreamWindow : UInt32 := 65535
  initialConnectionWindow : UInt32 := 65535
  maxFrameBytes : UInt32 := 16384
  headerTableBytes : UInt32 := 4096
  negotiationTimeout : Int := 10000
  headerTimeout : Int := 10000
  bodyTimeout : Int := 30000
  writeTimeout : Int := 30000
  queueTimeout : Int := 30000
  deriving DecidableEq

namespace Http2Options

/-- The first thing that is wrong with a configuration. -/
def validationError (o : Http2Options) : Option String :=
  if o.maxConcurrentStreams = 0 ∨ o.maxConcurrentStreams.toNat > kMaxWindowSize ∨
      o.maxApplicationTasks = 0 ∨ o.maxServerApplicationTasks = 0 then
    some "HTTP/2 流和应用任务上限必须为正，流上限不得超过 2^31-1"
  else if o.maxHeaderFields = 0 ∨ o.maxHeaderFields.toNat > kMaxHeaderFields ∨
      o.maxHeaderBytes = 0 then
    some "HTTP/2 头部预算必须为正，字段数不得超过 64"
  else if o.maxBodyBytes = 0 ∨ o.maxConnectionReceiveBytes < o.maxBodyBytes ∨
      o.maxConnectionSendBytes = 0 then
    some "HTTP/2 body 和连接预算必须为正，单流 body 不得超过连接接收预算"
  else if o.maxOutputBatchBytes = 0 ∨ o.maxOutputBatchBytes > o.maxConnectionSendBytes ∨
      o.maxFilePrefetchBytes = 0 ∨ o.maxFilePrefetchBytes > o.maxConnectionSendBytes then
    some "HTTP/2 输出批和文件预取必须为正，且不得超过连接待发预算"
  else if o.maxResponseBytes = 0 ∨ o.maxClientConnectionReceiveBytes < o.maxResponseBytes ∨
      o.maxConnectionsPerOrigin = 0 ∨ o.maxQueuedRequestsPerOrigin = 0 then
    some "HTTP/2 客户端预算必须为正，单流响应不得超过连接接收预算"
  else if o.initialStreamWindow.toNat > kMaxWindowSize ∨
      o.initialConnectionWindow.toNat < kDefaultWindowSize ∨
      o.initialConnectionWindow.toNat > kMaxWindowSize ∨ o.maxFrameBytes.toNat < kMinFrameBytes ∨
      o.maxFrameBytes.toNat > kMaxFrameBytes then
    some "HTTP/2 窗口或帧大小超出协议范围"
  else if o.negotiationTimeout ≤ 0 ∨ o.headerTimeout ≤ 0 ∨ o.bodyTimeout ≤ 0 ∨
      o.writeTimeout ≤ 0 ∨ o.queueTimeout ≤ 0 then
    some "HTTP/2 阶段时限必须为正"
  else none

theorem validationError_default : validationError {} = none := by decide

theorem maxHeaderFields_le {o : Http2Options} (h : o.validationError = none) :
    o.maxHeaderFields.toNat ≤ kMaxHeaderFields := by
  unfold validationError at h
  split at h
  · cases h
  · split at h
    · cases h
    · next hf =>
      simp only [not_or] at hf
      exact Nat.le_of_not_gt hf.2.1

theorem maxOutputBatchBytes_pos {o : Http2Options} (h : o.validationError = none) :
    0 < o.maxOutputBatchBytes.toNat := by
  apply Nat.pos_of_ne_zero
  intro h0
  have hzero : o.maxOutputBatchBytes = 0 := UInt64.toNat_inj.mp h0
  unfold validationError at h
  split at h
  · cases h
  · split at h
    · cases h
    · split at h
      · cases h
      · rw [if_pos (.inl hzero)] at h
        cases h

def validate (o : Http2Options) : Except String Unit :=
  match o.validationError with
  | some error => throw error
  | none => pure ()

end Http2Options

end Hical.Http2
