import SwitchV32.Stub.Extract
import SwitchV32.Debug.Breakpoint
import SwitchV32.Cthread

/-!
# The response builders of the stub

`stubb_a_dub/src/builder.c` with `target.c`, over the functions that `debug.c`
gives to the stub. Those of the threads manager are parameters, and so are the
room that the stack has for the arrays of `m` and `M`, whose size the client
chooses, and what an array holds that is not initialised. The socket is the list
of what its reads will give.
-/

namespace SwitchV32

-- ---------------------------------------------------------------------------
-- What the stub acts on
-- ---------------------------------------------------------------------------

abbrev regsNum : Nat := 33

/-- `target_conf_g.reg_bytes`, `reg_str_bytes`, `regs_bytes`, `regs_str_bytes` and `brkpt_size` -/
abbrev regBytes : Nat := 4
abbrev regStrBytes : Nat := 8
abbrev regsBytes : Nat := regBytes * regsNum
abbrev regsStrBytes : Nat := regStrBytes * regsNum
abbrev brkptSize : Nat := 4

abbrev maxSmp : Nat := 16

/-- Guest memory, `threads_mgr.cthreads[i].core.regs`, and whatever else there is. -/
structure Target (ρ : Type) where
  vmem : Mem
  regs : Nat → Reg → U32
  mgr : ρ

/-- The functions of the threads manager among the `sys_ops`. -/
structure SysOps (ρ : Type) where
  hsmState : ρ → Nat → CthreadState
  coreStep : Target ρ → Nat → Except Stop (Target ρ)
  coreContinue : Target ρ → Nat → Except Stop (Target ρ)
  coresContinue : Target ρ → Except Stop (Target ρ)
  coresHalt : Target ρ → Except Stop (Target ρ)
  /-- the cores may have gone on meanwhile -/
  isHalted : Target ρ → Bool × Target ρ
  /-- what an array holds before it is written -/
  stack : Nat → U8
  /-- how many bytes the arrays of a builder may have -/
  stackRoom : Nat

structure Stub (ρ : Type) where
  target : Target ρ
  breakpoints : Breakpoints
  /-- `sys_conf_g.smp`, checked by `sad_stub_init` -/
  smp : Fin (maxSmp + 1)
  /-- `builder_g.selected_core` -/
  selectedCore : Nat
  ackEnabled : Bool
  /-- `parser_g` and `input_buffer_g` -/
  reader : Reader
  /-- `output_buffer_g` -/
  output : Pkt
  /-- `server_g.sad_socket` -/
  socket : List ReadResult

variable {ρ : Type}

namespace Stub

def input (s : Stub ρ) : Pkt := s.reader.input

def setInput (s : Stub ρ) (p : Pkt) : Stub ρ := { s with reader := { s.reader with input := p } }

@[simp] theorem input_setInput (s : Stub ρ) (p : Pkt) : (s.setInput p).input = p := rfl

@[simp] theorem target_setInput (s : Stub ρ) (p : Pkt) : (s.setInput p).target = s.target := rfl

@[simp] theorem output_setInput (s : Stub ρ) (p : Pkt) : (s.setInput p).output = s.output := rfl

def append (s : Stub ρ) (l : List U8) : Stub ρ := { s with output := s.output.append l }

@[simp] theorem target_append (s : Stub ρ) (l : List U8) : (s.append l).target = s.target := rfl

def appendStr (s : Stub ρ) (str : String) : Stub ρ := s.append (ascii str)

end Stub

def sysCall {α : Type} (x : Except Stop α) : Except BuildFault α := x.mapError .sys

-- ---------------------------------------------------------------------------
-- `debug.c`
-- ---------------------------------------------------------------------------

namespace Target

def readReg (t : Target ρ) (coreId regId : Nat) : BitVec 64 :=
  (t.regs coreId (Fin.ofNat 44 regId)).setWidth 64

def writeReg (t : Target ρ) (input : BitVec 64) (coreId regId : Nat) : Target ρ :=
  let regs := Function.update (t.regs coreId) (Fin.ofNat 44 regId) (input.setWidth 32)
  { t with regs := Function.update t.regs coreId regs }

/-- The address goes through a `uint32_t`. -/
def readMem (t : Target ρ) (outputSz addr : Nat) : Except Stop (List U8) :=
  let addr := addr % 2 ^ 32
  if addr + outputSz ≤ t.vmem.size then
    .ok ((List.range outputSz).map fun i => t.vmem.byte (addr + i))
  else .error .fault

def writeMem (t : Target ρ) (input : List U8) (addr : Nat) : Except Stop (Target ρ) :=
  let addr := addr % 2 ^ 32
  if addr + input.length ≤ t.vmem.size then
    let byte k := if addr ≤ k ∧ k < addr + input.length then input.getD (k - addr) 0
      else t.vmem.byte k
    .ok { t with vmem := { t.vmem with byte } }
  else .error .fault

end Target

def coreName (state : CthreadState) : List U8 :=
  ascii (match state with
    | .started => "[HSM] Started"
    | .stopped => "[HSM] Stopped"
    | .suspended => "[HSM] Suspended"
    | .startPending => "[HSM] Start-pending"
    | .stopPending => "[HSM] Stop-pending"
    | .suspendPending => "[HSM] Suspend-pending"
    | .resumePending => "[HSM] Resume-pending"
    | _ => "")

-- ---------------------------------------------------------------------------
-- `target.c` and `breakpoint.c`
-- ---------------------------------------------------------------------------

/-- The first `n` bytes of a 64-bit number in memory. -/
def bytesOf (v : BitVec 64) (n : Nat) : List U8 :=
  (List.range n).map fun i => (v >>> (8 * i)).setWidth 8

/-- The number with these bytes in memory, and zeros behind them. -/
def ofBytes (l : List U8) : BitVec 64 :=
  l.foldr (fun b v => (v <<< 8) ||| b.setWidth 64) 0

def sadTargetReadRegs (t : Target ρ) (coreId : Nat) : List U8 :=
  (List.range regsNum).flatMap fun regId => bytesOf (t.readReg coreId regId) regBytes

def sadTargetWriteRegs (t : Target ρ) (regs : List U8) (coreId : Nat) : Target ρ :=
  (List.range regsNum).foldl (fun t regId =>
    t.writeReg (ofBytes ((regs.drop (regId * regBytes)).take regBytes)) coreId regId) t

variable (ops : SysOps ρ)

def SysOps.array (n : Nat) : List U8 := (List.range n).map ops.stack

/-- Arrays of `n` bytes in all are put on the stack. -/
def SysOps.allot (n : Nat) : Except BuildFault Unit :=
  if n ≤ ops.stackRoom then .ok () else .error .stack

theorem SysOps.allot_ok {n : Nat} (h : n ≤ ops.stackRoom) : ops.allot n = .ok () := if_pos h

theorem SysOps.allot_stack {n : Nat} (h : ¬ n ≤ ops.stackRoom) : ops.allot n = .error .stack :=
  if_neg h

namespace Stub

def removeBreakpoint (s : Stub ρ) (addr : BitVec 64) : Except BuildFault (BrkRet × Stub ρ) := do
  let (vmem, breakpoints, ret) ← sysCall (sadRemoveBreakpoint s.target.vmem s.breakpoints addr)
  return (ret, { s with target := { s.target with vmem }, breakpoints })

def insertBreakpoint (s : Stub ρ) (addr : BitVec 64) : Except BuildFault (BrkRet × Stub ρ) := do
  let (vmem, breakpoints, ret) ← sysCall (sadInsertBreakpoint s.target.vmem s.breakpoints addr)
  return (ret, { s with target := { s.target with vmem }, breakpoints })

def stepTheBreakpoint (s : Stub ρ) (coreIdx : Nat) : Except BuildFault (BrkRet × Stub ρ) := do
  let pc := s.target.readReg coreIdx Reg.pc
  let (ret, s) ← s.removeBreakpoint pc
  -- if removed, step and reinsert
  if ret = .removed then
    let target ← sysCall (ops.coreStep s.target coreIdx)
    let (_, s) ← { s with target }.insertBreakpoint pc
    return (.stepped, s)
  return (.notFound, s)

def sadBreakpointHartid (s : Stub ρ) : Option Nat :=
  (List.range s.smp).find? fun i =>
    (sadFindBreakpoint s.breakpoints (s.target.readReg i Reg.pc)).isSome

end Stub

-- ---------------------------------------------------------------------------
-- Registers
-- ---------------------------------------------------------------------------

/-- `extract_val`: a number, or the reply `E`. -/
def extractVal (extract : Pkt → Nat → Term → Except BuildFault (Option Int × Nat × Pkt))
    (s : Stub ρ) (cursor : Nat) (term : Term)
    (next : Int → Nat → Stub ρ → Except BuildFault (Stub ρ)) : Except BuildFault (Stub ρ) := do
  let (val, cursor, input) ← extract s.input cursor term
  let s := s.setInput input
  match val with
  | some val => next val cursor s
  | none => return s.appendStr "E"

def hexChars (n : Nat) (src : List U8) : List U8 := (sadBytesToHexChars (ops.array n) src).2

def buildUnsupported (s : Stub ρ) : Except BuildFault (Stub ρ) := return s

/-- format: p n -/
def buildp (s : Stub ρ) : Except BuildFault (Stub ρ) :=
  extractVal sadExtractUint32 s (s.input.startPktData + 1) eob fun regId _ s => do
    if regId.toNat ≥ regsNum then return s.appendStr "E"
    let reg := s.target.readReg s.selectedCore regId.toNat
    return s.append (hexChars ops regStrBytes (bytesOf reg regBytes))

/-- format: P n=r -/
def buildP (s : Stub ρ) : Except BuildFault (Stub ρ) :=
  extractVal sadExtractUint32 s (s.input.startPktData + 1) (some 0x3d) fun regId cursor s =>
    extractVal sadExtractUint64 s cursor eob fun reg _ s => do
      if regId.toNat ≥ regsNum then return s.appendStr "E"
      let target := s.target.writeReg (BitVec.ofInt 64 reg) s.selectedCore regId.toNat
      return { s with target }.appendStr "OK"

def buildg (s : Stub ρ) : Except BuildFault (Stub ρ) :=
  return s.append (hexChars ops regsStrBytes (sadTargetReadRegs s.target s.selectedCore))

/-- The registers after the fields of `G`; a field with a character that is no digit is skipped. -/
def overwriteRegs (regsStr : List U8) (regs : List U8) (i : Nat) : List U8 :=
  let field := (regsStr.drop (i * regStrBytes)).take regStrBytes
  match sadHexCharsToBytes (ops.array regBytes) field with
  | (.x, _) => regs
  | (_, reg) => regs.take (i * regBytes) ++ reg ++ regs.drop ((i + 1) * regBytes)

/-- format: G XX... -/
def buildG (s : Stub ρ) : Except BuildFault (Stub ρ) := do
  let (start, _, input) ← sadExtractStr s.input (s.input.startPktData + 1) eob
  let s := s.setInput input
  let regsStr ← s.input.str start
  if regsStr.length ≠ regsStrBytes then return s.appendStr "E"
  let oldRegs := sadTargetReadRegs s.target s.selectedCore
  let regs := (List.range regsNum).foldl (overwriteRegs ops regsStr) oldRegs
  return { s with target := sadTargetWriteRegs s.target regs s.selectedCore }.appendStr "OK"

-- ---------------------------------------------------------------------------
-- Memory
-- ---------------------------------------------------------------------------

/-- `addr + length >= sys_conf_g.memory_size` on 64 bits -/
def Stub.beyond (s : Stub ρ) (addr length : Int) : Bool :=
  (addr + length).toNat % 2 ^ 64 ≥ s.target.vmem.size

/-- format: m addr,length -/
def buildm (s : Stub ρ) : Except BuildFault (Stub ρ) :=
  extractVal sadExtractUint64 s (s.input.startPktData + 1) (some 0x2c) fun addr cursor s =>
    extractVal sadExtractUint64 s cursor eob fun length _ s => do
      if s.beyond addr length then return s.appendStr "E"
      -- `output` and `mem`
      ops.allot (2 * length.toNat + length.toNat)
      let mem ← sysCall (s.target.readMem length.toNat addr.toNat)
      return s.append (hexChars ops (2 * length.toNat) mem)

/-- format: M addr,length:XX -/
def buildM (s : Stub ρ) : Except BuildFault (Stub ρ) :=
  extractVal sadExtractUint64 s (s.input.startPktData + 1) (some 0x2c) fun addr cursor s =>
    extractVal sadExtractUint64 s cursor (some 0x3a) fun length cursor s => do
      if s.beyond addr length then return s.appendStr "E"
      let (start, _, input) ← sadExtractStr s.input cursor eob
      let s := s.setInput input
      let memStr ← s.input.str start
      if memStr.length ≠ 2 * length.toNat then return s.appendStr "E"
      ops.allot length.toNat
      -- what it answers is not looked at
      let (_, data) := sadHexStrToBytes (ops.array length.toNat) memStr
      let target ← sysCall (s.target.writeMem data addr.toNat)
      return { s with target }.appendStr "OK"

-- ---------------------------------------------------------------------------
-- Breakpoints
-- ---------------------------------------------------------------------------

/-- What `Z` and `z` check of their fields before they call `breakpoint.c`. -/
def breakpointReply (s : Stub ρ) (type addr kind : Int) (expected : BrkRet)
    (call : Stub ρ → BitVec 64 → Except BuildFault (BrkRet × Stub ρ)) :
    Except BuildFault (Stub ρ) := do
  if addr ≥ s.target.vmem.size then return s.appendStr "E"
  if kind ≠ brkptSize then return s.appendStr "E"
  -- only sw breakpoint supported
  if type ≠ 0 then return s.appendStr "E"
  let (ret, s) ← call s (BitVec.ofInt 64 addr)
  if ret ≠ expected then return s.appendStr "E"
  return s.appendStr "OK"

/-- format: Z type,addr,kind, ignoring the optional params -/
def buildZ (s : Stub ρ) : Except BuildFault (Stub ρ) :=
  extractVal sadExtractUint32 s (s.input.startPktData + 1) (some 0x2c) fun type cursor s =>
    extractVal sadExtractUint64 s cursor (some 0x2c) fun addr cursor s =>
      extractVal sadExtractUint32 s cursor (some 0x3b) fun kind _ s =>
        breakpointReply s type addr kind .inserted Stub.insertBreakpoint

/-- format: z type,addr,kind -/
def buildz (s : Stub ρ) : Except BuildFault (Stub ρ) :=
  extractVal sadExtractUint32 s (s.input.startPktData + 1) (some 0x2c) fun type cursor s =>
    extractVal sadExtractUint64 s cursor (some 0x2c) fun addr cursor s =>
      extractVal sadExtractUint32 s cursor eob fun kind _ s =>
        breakpointReply s type addr kind .removed Stub.removeBreakpoint

-- ---------------------------------------------------------------------------
-- Queries
-- ---------------------------------------------------------------------------

def buildqstmrk (s : Stub ρ) : Except BuildFault (Stub ρ) := return s.appendStr "S05"

def buildT (s : Stub ρ) : Except BuildFault (Stub ρ) := return s.appendStr "OK"

def buildH (s : Stub ρ) : Except BuildFault (Stub ρ) := do
  let (start, _, input) ← sadExtractStr s.input s.input.startPktData eob
  let s := s.setInput input
  let command ← s.input.str start
  if command.take 2 = ascii "Hg" then
    extractVal sadExtractUint32 s (s.input.startPktData + 2) eob fun threadId _ s => do
      -- select any, we still use the "0" core
      if threadId = 0 then return { s with selectedCore := 0 }.appendStr "OK"
      else if threadId - 1 ≥ s.smp then return s.appendStr "E"
      else return { s with selectedCore := (threadId - 1).toNat }.appendStr "OK"
  else return s

def buildQ (s : Stub ρ) : Except BuildFault (Stub ρ) := do
  let (start, _, input) ← sadExtractStr s.input s.input.startPktData (some 0x3a)
  let s := s.setInput input
  let command ← s.input.str start
  if command = ascii "QStartNoAckMode" then
    return { s with ackEnabled := false }.appendStr "OK"
  else return s

def threadInfo (smp : Nat) : List U8 :=
  ascii "m" ++ (List.range' 1 (smp - 1)).flatMap (fun i => printU i ++ ascii ",") ++
    printU (max 1 smp)

/-- The commands of `q` that end at a `:`, one after the other. -/
def queryReply (s : Stub ρ) (command : List U8) : List U8 :=
  (if command = ascii "qSupported" then ascii "swbreak+;vCont+;QStartNoAckMode+" else []) ++
  (if command = ascii "qfThreadInfo" then threadInfo s.smp else []) ++
  (if command = ascii "qsThreadInfo" then ascii "l" else []) ++
  (if command = ascii "qC" then ascii "QC" ++ printU (s.selectedCore + 1) else []) ++
  (if command = ascii "qSymbol" then ascii "OK" else [])

def buildq (s : Stub ρ) : Except BuildFault (Stub ρ) := do
  let cursor := s.input.startPktData
  let (start, _, input) ← sadExtractStr s.input cursor (some 0x3a)
  let s := s.setInput input
  let (startExtra, cursorExtra, input) ← sadExtractStr s.input cursor (some 0x2c)
  let s := s.setInput input
  let commandExtra ← s.input.str startExtra
  let rest (s : Stub ρ) : Except BuildFault (Stub ρ) := do
    let command ← s.input.str start
    return s.append (queryReply s command)
  --  format 'qThreadExtraInfo,thread-id'
  if commandExtra.take 16 = ascii "qThreadExtraInfo" then
    extractVal sadExtractUint32 s cursorExtra eob fun threadId _ s => do
      -- on a uint32_t, so that 0 is refused
      if (threadId - 1) % 2 ^ 32 ≥ s.smp then return s.appendStr "E"
      let name := coreName (ops.hsmState s.target.mgr (threadId - 1).toNat)
      rest (s.append (hexChars ops (2 * name.length) name))
  else rest s

-- ---------------------------------------------------------------------------
-- `vCont`
-- ---------------------------------------------------------------------------

/-- `sad_buff_from_socket(input_buffer_g, ..)`, and what the socket gives after it. -/
def Stub.received (s : Stub ρ) (rd : ReadResult) (socket : List ReadResult) : Stub ρ :=
  match rd with
  | .bytes rd => { s with reader := s.reader.read rd, socket }
  | _ => { s with socket }

/-- Whether the cores have halted by themselves. Each look at the socket takes what is there. -/
def waitForHalt (s : Stub ρ) : List ReadResult → Except BuildFault (Bool × Stub ρ)
  | [] => .error .waiting
  | rd :: socket => do
    let s := s.received rd socket
    let last ← s.input.read (s.input.data.length - 1)
    -- ^C from gdb
    if last = (0x03 : U8) then
      let target ← sysCall (ops.coresHalt s.target)
      return (false, { s with target })
    -- check if core halted
    match ops.isHalted s.target with
    | (true, target) => return (true, { s with target })
    | (false, target) => waitForHalt { s with target } socket

/-- `T05` with the core that halted and its registers. -/
def haltReply (s : Stub ρ) (threadId : Int) : Stub ρ :=
  let s := s.appendStr "T05swbreak:;"
  let halterId := if threadId = -1 then s.sadBreakpointHartid else some threadId.toNat
  match halterId with
  | none => s
  | some halterId =>
    -- gdb wants id from 1 not 0...
    let id := printD (BitVec.ofNat 32 (halterId + 1))
    let s := s.append (ascii "thread:" ++ id ++ ascii ";")
    let s := s.append (ascii "core:" ++ id ++ ascii ";")
    s.append ((List.range regsNum).flatMap fun regId =>
      print02x regId ++ ascii ":" ++
        hexChars ops regStrBytes (bytesOf (s.target.readReg halterId regId) regBytes) ++ ascii ";")

/-- `sad_step_the_breakpoint` of each core, before all of them continue. -/
def stepBreakpoints (s : Stub ρ) (cores : List Nat) : Except BuildFault (Stub ρ) :=
  cores.foldlM (fun s i => return (← s.stepTheBreakpoint ops i).2) s

/-- The action on core `threadId`, -1 being all; `none` is answered with `E`. -/
def vContAction (s : Stub ρ) (action : U8) (threadId : Int) :
    Except BuildFault (Option (Stub ρ)) := do
  if action = 0x63 then
    if threadId = -1 then
      let s ← stepBreakpoints ops s (List.range s.smp)
      return some { s with target := ← sysCall (ops.coresContinue s.target) }
    else
      let (_, s) ← s.stepTheBreakpoint ops threadId.toNat
      return some { s with target := ← sysCall (ops.coreContinue s.target threadId.toNat) }
  else if action = 0x73 then
    -- can only step 1 thread
    if threadId = -1 then return none
    let (brkRet, s) ← s.stepTheBreakpoint ops threadId.toNat
    -- the current core isn't stopped on a breakpoint so just step it directly
    if brkRet = .notFound then
      return some { s with target := ← sysCall (ops.coreStep s.target threadId.toNat) }
    return some s
  else return none

def vContThread (s : Stub ρ) (action : U8) (threadId : Int) : Except BuildFault (Stub ρ) := do
  if threadId - 1 ≥ s.smp ∨ threadId < -1 then return s.appendStr "E"
  let threadId := if threadId = 0 then (s.selectedCore : Int) else threadId
  let threadId := if 0 < threadId then threadId - 1 else threadId
  match ← vContAction ops s action threadId with
  | none => return s.appendStr "E"
  | some s =>
    let (stop, s) ← waitForHalt ops s s.socket
    -- GDB interactive stop
    if !stop then return s.appendStr "S02"
    return haltReply ops s threadId

def buildv (s : Stub ρ) : Except BuildFault (Stub ρ) := do
  let (start, cursor, input) ← sadExtractStr s.input s.input.startPktData (some 0x3b)
  let s := s.setInput input
  let command ← s.input.str start
  if command = ascii "vCont?" then return s.appendStr "s;c"
  else if command = ascii "vCont" then
    -- evaluating just the left most action
    let action ← s.input.read cursor
    let next ← s.input.read (cursor + 1)
    -- the ":id" part is optional, just assume -1
    if next = 0x3a then
      extractVal sadExtractLong s (cursor + 2) (some 0x3a) fun threadId _ s =>
        vContThread ops s action threadId
    else vContThread ops s action (-1)
  else return s

-- ---------------------------------------------------------------------------
-- The response
-- ---------------------------------------------------------------------------

/-- `SUPPORTED_CMDS` with the builders; a character that is not there is not supported. -/
def supportedBuilders : List (U8 × (Stub ρ → Except BuildFault (Stub ρ))) :=
  [(0x70, buildp ops), (0x50, buildP), (0x71, buildq ops), (0x51, buildQ), (0x3f, buildqstmrk),
    (0x6d, buildm ops), (0x4d, buildM ops), (0x47, buildG ops), (0x67, buildg ops), (0x54, buildT),
    (0x7a, buildz), (0x5a, buildZ), (0x48, buildH), (0x76, buildv ops), (0x30, buildUnsupported)]

def builder (cmd : U8) : Stub ρ → Except BuildFault (Stub ρ) :=
  match (supportedBuilders ops).find? fun e => e.1 = cmd with
  | some e => e.2
  | none => buildUnsupported

def Stub.openResp (s : Stub ρ) : Stub ρ :=
  let s := s.appendStr (if s.ackEnabled then "+$" else "$")
  { s with output := { s.output with startPktData := s.output.data.length } }

def Stub.closeResp (s : Stub ρ) : Stub ρ :=
  let s := { s with output := { s.output with endPktData := s.output.data.length } }
  let s := s.appendStr "#"
  s.append (print02x (sadBuffChecksum s.output).toNat)

@[simp] theorem Stub.target_closeResp (s : Stub ρ) : s.closeResp.target = s.target := rfl

def sadBuilderBuildResp (s : Stub ρ) : Except BuildFault (Stub ρ) := do
  let cmd ← s.input.read s.input.startPktData
  let s ← builder ops cmd s.openResp
  return s.closeResp

/-- An accepted packet, with the output buffer reset: the payload of the reply. -/
def respond (s : Stub ρ) (input : Pkt) : Except BuildFault (List U8 × Stub ρ) := do
  let s ← sadBuilderBuildResp ops { s.setInput input with output := .reset }
  return (s.output.payload, s)

-- ---------------------------------------------------------------------------
-- A stub that was initialised
-- ---------------------------------------------------------------------------

/-- A threads manager whose cores stay halted, and a stack of 8 MiB. -/
def SysOps.idle : SysOps Unit where
  hsmState _ _ := .started
  coreStep t _ := .ok t
  coreContinue t _ := .ok t
  coresContinue t := .ok t
  coresHalt t := .ok t
  isHalted t := (true, t)
  stack _ := 0
  stackRoom := 0x800000

/-- `sad_stub_init` for two cores, with the input buffer as the parser leaves it. -/
def Stub.init (vmem : Mem) (input : Pkt) : Stub Unit where
  target := ⟨vmem, fun _ _ => 0, ()⟩
  breakpoints := .reset
  smp := 2
  selectedCore := 0
  ackEnabled := true
  reader := ⟨.finished, input.data.length, 0, 0, input⟩
  output := .reset
  socket := []

end SwitchV32
