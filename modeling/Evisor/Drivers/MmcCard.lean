import Evisor.Drivers.Mmc
import Evisor.Drivers.MmcClock
import Evisor.Drivers.MmcDialogue

/-!
# Bringing up the SD card

`Mmc::Open` of `drivers/mmc/mmc.cc`, and `Mmc::ResetCard` with all that it calls in
`drivers/mmc/mmc_card.cc`, `drivers/mmc/mmc_clock.cc` and `drivers/mmc/mmc_irq.cc`. The controller
is reset and given power and a clock; then the card is asked one thing after the other, until its
address, its kind and its configuration are known.

Whatever the registers return, what is said to the card is the beginning of a bring-up
(`Emmc.Bringup`), and all of one if `ResetCard` succeeds. `Open` tries four times at most
(`Emmc.open_brings_up`).
-/

namespace Evisor

namespace Emmc

open Lib (Attempt andThen again)

/-! ### The registers of the controller -/

/-- The registers of `Mmc::Emmc2Regs` that commands do not use. -/
inductive Ctrl where
  | CONTROL0 | CONTROL1 | CONTROL2 | IRPT_MASK | IRPT_EN | SLOTISR_VER
  deriving DecidableEq

/-- `SD_CLOCK_HIGH`. -/
def SD_CLOCK_HIGH : Word := 50000000

/-- The bits of `CONTROL1` that are used beside `EMMC_CTRL1_CLK_EN`. -/
def EMMC_CTRL1_RESET_DATA : Word := 1 <<< 26
def EMMC_CTRL1_RESET_CMD : Word := 1 <<< 25
def EMMC_CTRL1_RESET_HOST : Word := 1 <<< 24
def EMMC_CTRL1_CLK_STABLE : Word := 1 <<< 1
def EMMC_CTRL1_CLK_INTLEN : Word := 1 <<< 0

/-- **What `Mmc` works on**: its `Device`, with the rest of `device_` beside it, and the registers.
Those that commands use are apart from the others, since nothing is said of what either return. -/
structure Card where
  device : Device
  /-- The words of `ScrReg::scr`, and `ScrReg::version`. -/
  scr : ℕ → Word
  version : Word
  base_clock : Word
  regs_ : Lib.Bus Reg Word
  ctrl : Lib.Bus Ctrl Word

namespace Card

/-- A register is set. -/
def set (r : Ctrl) (v : Word) (c : Card) : Card := { c with ctrl := c.ctrl.write r v }

/-- A register is read, and set to what is made of it. -/
def update (r : Ctrl) (f : Word → Word) (c : Card) : Card :=
  { c with ctrl := (c.ctrl.read r).write r (f c.ctrl.next) }

/-- `RegWaitBitSet` and `RegWaitBitClear`, on one of these registers. -/
def regWait (r : Ctrl) (p : Word → Bool) (timeout_ms : ℕ) (c : Card) : Bool × Card :=
  let wait := c.ctrl.poll r p (timeout_ms * 1000 % 2 ^ 32 + 1)
  (wait.1.isSome, { c with ctrl := wait.2 })

/-- `INTERRUPT` is written. -/
def ack (v : Word) (c : Card) : Card := { c with regs_ := c.regs_.write .INTERRUPT v }

/-- What has become of a command. -/
def after (c : Card) (s : State) : Card := { c with regs_ := s.regs_ }

end Card

/-- A `CommandData` as it is set up, without a buffer. -/
def newCommand (cmd_type : CmdType) (cmd_arg : Word) (cmd_timeout_usec : ℕ) : CommandData where
  cmd_type := cmd_type
  cmd_reg := kCommands_ cmd_type
  cmd_arg := cmd_arg
  cmd_timeout_usec := cmd_timeout_usec
  transfer_blocks := 0
  buffer := fun _ => 0
  cmd_response := fun _ => 0
  cmd_error := 0

/-- `Mmc::SendCommand`, of a command that has been set up. -/
def Card.send (c : Card) (d : CommandData) : Bool × State := sendCommand c.device ⟨d, c.regs_⟩

/-- A step that cannot fail. -/
def always (f : Card → Card) : Attempt Card := fun c => some (true, f c)

/-! ### The steps of `ResetCard` -/

/-- The controller is reset. -/
def resetController : Attempt Card := fun c =>
  let c := c.update .CONTROL1 (· &&& ~~~EMMC_CTRL1_CLK_EN)
  let c := c.update .CONTROL1 (· &&& ~~~EMMC_CTRL1_CLK_INTLEN)
  let c := c.update .CONTROL1 (· ||| EMMC_CTRL1_RESET_HOST)
  some (c.regWait .CONTROL1 (fun v => v &&& (EMMC_CTRL1_RESET_DATA ||| EMMC_CTRL1_RESET_CMD |||
    EMMC_CTRL1_RESET_HOST) == 0) 1000)

/-- The bus is given power. -/
def powerOn : Card → Card := Card.update .CONTROL0 (· ||| 0x0F <<< 8)

/-- `Mmc::IsCardInserted`. -/
def isCardInserted : Attempt Card := fun c =>
  some (c.regs_.next &&& 1 <<< 16 != 0, { c with regs_ := c.regs_.read .STATUS })

/-- `Mmc::SetupInitialClockRate`. -/
def setupInitialClockRate : Attempt Card := fun c =>
  (getClockDivider c.base_clock SD_CLOCK_HIGH).map fun divider =>
    let c := c.set .CONTROL2 0
    let c := c.update .CONTROL1 fun n =>
      ((n ||| EMMC_CTRL1_CLK_INTLEN ||| divider) &&& ~~~(0xf <<< 16 : Word)) ||| 11 <<< 16
    let wait := c.regWait .CONTROL1 (bitSet EMMC_CTRL1_CLK_STABLE) 1000
    if wait.1 = false then (false, wait.2)
    else (true, wait.2.update .CONTROL1 (· ||| EMMC_CTRL1_CLK_EN))

/-- `Mmc::SetupHostIrqs`. -/
def setupHostIrqs (c : Card) : Card :=
  ((c.set .IRPT_EN 0).set .IRPT_MASK 0xFFFFFFFF).ack 0xFFFFFFFF

theorem four_dvd_zero : 4 ∣ 0 := Nat.dvd_zero 4

/-- `device_.block_size = 0`. -/
def noBlockSize (c : Card) : Card :=
  { c with device := { c.device with block_size := 0, dvd_block_size := four_dvd_zero } }

/-- **A question to the card**: a command is sent, and something is made of the answer, which has
to be one that will do. -/
def ask (cmd_type : CmdType) (cmd_arg : Device → Word) (ok : Word → Bool)
    (keep : Device → Word → Device) : Attempt Card := fun c =>
  let r := c.send (newCommand cmd_type (cmd_arg c.device) 2000)
  if r.1 = false then some (false, c.after r.2)
  else some (ok r.2.d.response0, { c.after r.2 with device := keep c.device r.2.d.response0 })

/-- `GO_IDLE_STATE` is sent. -/
def goIdleState : Attempt Card :=
  ask .GO_IDLE_STATE (fun _ => 0) (fun _ => true) fun device _ => device

/-- `Mmc::ResetCommandHandlingCircuit`. -/
def resetCommandHandlingCircuit (c : Card) : Bool × Card :=
  let c := c.update .CONTROL1 (· ||| EMMC_CTRL1_RESET_CMD)
  let wait := c.ctrl.poll .CONTROL1 (fun v => v &&& EMMC_CTRL1_RESET_CMD == 0) 10000
  if wait.1.isSome then (true, { c with ctrl := wait.2 })
  else (false, { c with ctrl := wait.2.read .CONTROL1 })

/-- `SdErrorMask(SdError::SDECommandTimeout)`. -/
def kCommandTimeout : Word := 1 <<< 16

/-- `Mmc::CheckV2Card`: whether the card has understood the question. It is no reason to stop. -/
def checkV2Card (c : Card) : Bool × Card :=
  let r := c.send (newCommand .SEND_IF_COND 0x1AA 200)
  let c := c.after r.2
  if r.1 = false then
    if r.2.d.cmd_error = 0 then (false, c)
    else if r.2.d.cmd_error &&& 1 <<< 16 ≠ 0 then
      let reset := resetCommandHandlingCircuit c
      if reset.1 = false then reset else (false, reset.2.ack kCommandTimeout)
    else (false, c)
  else (r.2.d.response0 &&& 0xFFF == 0x1AA, c)

/-- `Mmc::CheckUsableCard`. -/
def checkUsableCard : Attempt Card := fun c =>
  let r := c.send (newCommand .IO_SET_OP_COND 0 1000)
  let c := c.after r.2
  if r.1 = false then
    if r.2.d.cmd_error = 0 then some (true, c)
    else if r.2.d.cmd_error &&& 1 <<< 16 ≠ 0 then
      let reset := resetCommandHandlingCircuit c
      if reset.1 = false then some reset else some (true, reset.2.ack kCommandTimeout)
    else some (false, c)
  else some (true, c)

/-- `Mmc::CheckOcr`, on the card. -/
def checkOcrStep : Attempt Card := fun c =>
  let r := checkOcr c.device c.regs_
  some (r.1, { c with device := r.2.1, regs_ := r.2.2 })

/-- The argument of the question for the kind of the card. -/
def ocrArg (v2_card : Bool) : Word := 0x00FF8000 ||| if v2_card then 1 <<< 30 else 0

/-- The card is not busy any more. -/
def cardReady (v : Word) : Bool := v >>> 31 &&& 1 != 0

/-- What the card says of itself is kept. -/
def Device.withOcr (device : Device) (v : Word) : Device :=
  { device with
    ocr := (v >>> 8 &&& 0xFFFF).setWidth 16
    sdhc := v >>> 30 &&& 1 != 0 }

/-- The loop of `Mmc::CheckSdhcSupport`, as long as it makes no more than `fuel` passes. -/
def sdhcLoop (device : Device) (v2_card : Bool) : ℕ → State → Option (Bool × Device × State)
  | 0, _ => none
  | fuel + 1, s =>
    let r := appCommand device { s with d := { s.d with cmd_arg := ocrArg v2_card } }
    if r.1 = false then some (false, device, r.2)
    else if cardReady r.2.d.response0 then some (true, device.withOcr r.2.d.response0, r.2)
    else sdhcLoop device v2_card fuel r.2

/-- `Mmc::CheckSdhcSupport`. -/
def checkSdhcSupport (fuel : ℕ) (v2_card : Bool) : Attempt Card := fun c =>
  (sdhcLoop c.device v2_card fuel ⟨newCommand .CTOcrCheck 0 2000, c.regs_⟩).map fun r =>
    (r.1, { c with device := r.2.1, regs_ := r.2.2.regs_ })

/-- `Mmc::ChangeClockRate`, to `SD_CLOCK_HIGH`. -/
def changeClockRateStep (fuel : ℕ) : Attempt Card := fun c =>
  (getClockDivider c.base_clock SD_CLOCK_HIGH).bind fun divider =>
    (waitIdle fuel ⟨0, c.regs_⟩).map fun s =>
      let c1 := c.ctrl.next &&& ~~~EMMC_CTRL1_CLK_EN
      let c := { c with regs_ := s.regs_ }
      let c := c.update .CONTROL1 fun _ => c1
      let c := c.set .CONTROL1 ((c1 ||| divider) &&& ~~~0xFFE0)
      (true, c.set .CONTROL1 (c1 ||| EMMC_CTRL1_CLK_EN))

/-- The address of the card is kept. -/
def Device.withRca (device : Device) (v : Word) : Device :=
  { device with rca := v >>> 16 &&& 0xFFFF }

/-- `Mmc::CheckRca`. The two commands share a `CommandData`, but nothing that the first one leaves
in it is looked at. -/
def checkRca : Attempt Card :=
  andThen (ask .ALL_SEND_CID (fun _ => 0) (fun _ => true) fun device _ => device)
    (ask .SEND_RELATIVE_ADDR (fun _ => 0) (fun v => v >>> 8 &&& 1 != 0) Device.withRca)

/-- The state of the card is one in which it can be selected. -/
def selected (v : Word) : Bool := v >>> 9 &&& 0xF == 3 || v >>> 9 &&& 0xF == 4

/-- `Mmc::SelectCard`. -/
def selectCard : Attempt Card :=
  ask .SELECT_CARD (fun device => device.rca <<< 16) selected fun device _ => device

/-- `BSWAP32`. -/
def BSWAP32 (x : Word) : Word :=
  (x <<< 24 &&& 0xff000000) ||| (x <<< 8 &&& 0x00ff0000) ||| (x >>> 8 &&& 0x0000ff00) |||
    (x >>> 24 &&& 0x000000ff)

/-- `device_.scr.version`, from the first word of the register. -/
def scrVersion (scr : Word) : Word :=
  let scr0 := BSWAP32 scr
  let spec := scr0 >>> (56 - 32) &&& 0xf
  let spec3 := scr0 >>> (47 - 32) &&& 0x1
  let spec4 := scr0 >>> (42 - 32) &&& 0x1
  if spec = 0 then 1
  else if spec = 1 then 11
  else if spec = 2 then
    if spec3 = 0 then 2
    else if spec4 = 0 then 3
    else 4
  else 0xFFFFFFFF

/-- The length of a block is set, for a card that is not of high capacity. -/
def setBlocklen : Attempt Card := fun c =>
  if c.device.sdhc then some (true, c)
  else ask .SET_BLOCKLEN (fun _ => 512) (fun _ => true) (fun device _ => device) c

/-- `device_` with blocks of a size. -/
def Device.withBlocks (device : Device) (words : ℕ) : Device :=
  { device with block_size := 4 * words, dvd_block_size := Nat.dvd_mul_right 4 words }

/-- The rest of `Mmc::SetScr`. The register is read as one block of eight bytes. -/
def readScr : Attempt Card := fun c =>
  let bsc := (c.regs_.next &&& ~~~0xFFF) ||| 0x200
  let regs_ := (c.regs_.read .BLKSIZECNT).write .BLKSIZECNT bsc
  let device := c.device.withBlocks 2
  let d := { newCommand .CTSendSCR 0 30000 with transfer_blocks := 1, buffer := c.scr }
  let r := appCommand device ⟨d, regs_⟩
  let c := { c.after r.2 with device := device, scr := r.2.d.buffer }
  if r.1 = false then some (false, c)
  else some (true, { c with
    device := c.device.withBlocks 128, version := scrVersion (c.scr 0) })

/-- `Mmc::SetScr`. -/
def setScr : Attempt Card := andThen setBlocklen readScr

/-- `Mmc::ResetCard`. There is no outcome while the card is busy, or a line of it inhibited, for
more than `fuel` looks at it. -/
def resetCard (fuel : ℕ) : Attempt Card :=
  andThen resetController <| andThen (always powerOn) <| andThen isCardInserted <|
  andThen setupInitialClockRate <| andThen (always setupHostIrqs) <|
  andThen (always noBlockSize) <| andThen goIdleState fun c =>
    let v2_card := checkV2Card c
    (andThen checkUsableCard <| andThen checkOcrStep <|
      andThen (checkSdhcSupport fuel v2_card.1) <| andThen (changeClockRateStep fuel) <|
      andThen checkRca <| andThen selectCard <| andThen setScr <|
      always (Card.ack 0xFFFFFFFF)) v2_card.2

/-- The device as `Mmc::Open` sets it up. -/
def Card.fresh (c : Card) (base_clock : Word) : Card :=
  { c with
    device := { c.device with sdhc := false, ocr := 0, rca := 0 }
    base_clock := base_clock
    ctrl := c.ctrl.read .SLOTISR_VER }

/-- `Mmc::Open`, with the rate that `Clkrst` reports. -/
def mmcOpen (base_clock : Word) (fuel : ℕ) (c : Card) : Option (Bool × Card) :=
  again (resetCard fuel) MmcDriver.kRetryMax (c.fresh base_clock)

/-! ### The protocol of the bring-up -/

/-- What has been said on the way from one state to another. -/
def CardSaid (c : Card) (l : List Letter) (c' : Card) : Prop := Said c.regs_ l c'.regs_

theorem records_cardSaid : Lib.Records CardSaid := ⟨fun c => .refl c.regs_, Said.trans⟩

/-- Nothing is said, and `device_` stays. -/
def Nothing (c : Card) (w : List Letter) (c' : Card) : Prop := w = [] ∧ c'.device = c.device

/-- A question, with an answer that will do. -/
def Asks (cmd_type : CmdType) (cmd_arg : Device → Word) (ok : Word → Bool)
    (keep : Device → Word → Device) (c : Card) (w : List Letter) (c' : Card) : Prop :=
  ∃ v, ok v = true ∧ w = word (kCommands_ cmd_type) (cmd_arg c.device) v ∧
    c'.device = keep c.device v

/-- `SEND_IF_COND`, which a card of the first version does not understand. -/
def AsksVersion (v2_card : Bool) (c : Card) (w : List Letter) (c' : Card) : Prop :=
  Sent (kCommands_ .SEND_IF_COND) 0x1AA w ∧ c'.device = c.device ∧
    (v2_card = true → ∃ v, v &&& 0xFFF = 0x1AA ∧ w = word (kCommands_ .SEND_IF_COND) 0x1AA v)

/-- `IO_SET_OP_COND`, which is not to be answered. -/
def AsksIo (c : Card) (w : List Letter) (c' : Card) : Prop :=
  Sent (kCommands_ .IO_SET_OP_COND) 0 w ∧ c'.device = c.device

/-- **The attempts of `CheckOcr`** for a command, with the answer at the end. An attempt for which
`APP_CMD` is not answered leaves `APP_CMD` for the next one. -/
inductive OcrWord (app : Word) : ℕ → CmdRegister → Word → List Letter → Word → Prop
  | through {n : ℕ} {c : CmdRegister} {arg v v' : Word} :
    OcrWord app (n + 1) c arg (word (kCommands_ .APP_CMD) app v ++ word c arg v') v'
  | unserved {n : ℕ} {c : CmdRegister} {arg v v' : Word} {l m : List Letter}
    (hl : Sent c arg l) (hm : OcrWord app n c arg m v') :
    OcrWord app (n + 1) c arg (word (kCommands_ .APP_CMD) app v ++ l ++ m) v'
  | unanswered {n : ℕ} {c : CmdRegister} {arg v' : Word} {l m : List Letter}
    (hl : Sent (kCommands_ .APP_CMD) app l) (hm : OcrWord app n (kCommands_ .APP_CMD) app m v') :
    OcrWord app (n + 1) c arg (l ++ m) v'

/-- `CheckOcr`. -/
def AsksOcr (c : Card) (w : List Letter) (c' : Card) : Prop :=
  ∃ v, OcrWord (appArg c.device) kOcrAttempts (kCommands_ .CTOcrCheck) 0 w v ∧
    c'.device = { c.device with ocr := (v >>> 8 &&& 0xffff).setWidth 16 }

/-- **Asking until the card is not busy**, with the answer at the end. -/
inductive BusyWord (app arg : Word) : List Letter → Word → Prop
  | ready {v v' : Word} (hv : cardReady v' = true) : BusyWord app arg
    (word (kCommands_ .APP_CMD) app v ++ word (kCommands_ .CTOcrCheck) arg v') v'
  | busy {v v₁ v' : Word} {m : List Letter} (hv : cardReady v₁ = false)
    (hm : BusyWord app arg m v') : BusyWord app arg
    (word (kCommands_ .APP_CMD) app v ++ word (kCommands_ .CTOcrCheck) arg v₁ ++ m) v'

/-- `CheckSdhcSupport`. -/
def AsksBusy (v2_card : Bool) (c : Card) (w : List Letter) (c' : Card) : Prop :=
  ∃ v, BusyWord (appArg c.device) (ocrArg v2_card) w v ∧ c'.device = c.device.withOcr v

/-- The length of a block is set, if it has to be. -/
def AsksBlocklen (c : Card) (w : List Letter) (c' : Card) : Prop :=
  c'.device = c.device ∧
    if c.device.sdhc then w = [] else ∃ v, w = word (kCommands_ .SET_BLOCKLEN) 512 v

/-- The configuration of the card is read. -/
def AsksScr (c : Card) (w : List Letter) (c' : Card) : Prop :=
  ∃ v v', w = word (kCommands_ .APP_CMD) (appArg c.device) v ++
      word (kCommands_ .CTSendSCR) 0 v' ∧ c'.device = c.device.withBlocks 128

/-! ### The steps keep to it -/

variable {c c' : Card} {fuel : ℕ}

theorem nothing_total : Lib.Protocol.Total Nothing := fun c => ⟨[], c, rfl, rfl⟩

theorem keepsTo_always {f : Card → Card} (hsaid : ∀ c, CardSaid c [] (f c))
    (hdevice : ∀ c, (f c).device = c.device) :
    Lib.KeepsTo CardSaid Answer (always f) Nothing where
  total := nothing_total
  through h := by
    obtain rfl := congrArg Prod.snd (Option.some.inj h)
    exact ⟨[], hsaid _, rfl, hdevice _⟩
  off h := by cases h

/-- A step at which nothing is said keeps to `Nothing`, whatever it comes to. -/
theorem keepsTo_of_silent {f : Attempt Card}
    (h : ∀ {c c' ok}, f c = some (ok, c') → CardSaid c [] c' ∧ c'.device = c.device) :
    Lib.KeepsTo CardSaid Answer f Nothing where
  total := nothing_total
  through hf := ⟨[], (h hf).1, rfl, (h hf).2⟩
  off hf := ⟨[], (h hf).1, Lib.begins_of_prefix ⟨_, rfl, (h hf).2⟩ (List.prefix_refl [])⟩

theorem asks_total {cmd_type : CmdType} {cmd_arg : Device → Word} {ok : Word → Bool}
    {keep : Device → Word → Device} {v : Word} (hv : ok v = true) :
    Lib.Protocol.Total (Asks cmd_type cmd_arg ok keep) := fun c =>
  ⟨_, { c with device := keep c.device v }, v, hv, rfl, rfl⟩

/-- A command that has been sent begins its word. -/
theorem Sent.begins {cmd : CmdRegister} {arg : Word} {l : List Letter} (h : Sent cmd arg l)
    {P : List Letter → Prop} {v : Word} {m : List Letter} (hw : P (word cmd arg v ++ m)) :
    Lib.Begins Answer P l := by
  have hsent : [.arg arg, .cmd cmd.word] <+: word cmd arg v ++ m := ⟨_, rfl⟩
  rcases h with rfl | ⟨v', rfl⟩
  · exact Lib.begins_of_prefix hw hsent
  · by_cases hresp : cmd.responses = 0
    · have hsame : word cmd arg v' = word cmd arg v := by
        rw [word, word, if_pos hresp, if_pos hresp]
      rw [hsame]
      exact Lib.begins_of_prefix hw (List.prefix_append _ _)
    · have hanswer : word cmd arg v' = [.arg arg, .cmd cmd.word] ++ [.resp v'] := by
        rw [word, if_neg hresp]
        rfl
      rw [hanswer]
      exact Lib.begins_of_answer hw hsent trivial

/-- What is said by a command that has been set up. -/
theorem send_says (c : Card) (cmd_type : CmdType) (cmd_arg : Word) (cmd_timeout_usec : ℕ) :
    ∃ l, CardSaid c l (c.after (c.send (newCommand cmd_type cmd_arg cmd_timeout_usec)).2) ∧
      ((c.send (newCommand cmd_type cmd_arg cmd_timeout_usec)).1 = true →
        l = word (kCommands_ cmd_type) cmd_arg
          (c.send (newCommand cmd_type cmd_arg cmd_timeout_usec)).2.d.response0) ∧
      Sent (kCommands_ cmd_type) cmd_arg l :=
  sendCommand_says c.device (s := ⟨newCommand cmd_type cmd_arg cmd_timeout_usec, c.regs_⟩)
    (Nat.zero_le _)

/-- **A question** keeps to its word. -/
theorem keepsTo_ask (cmd_type : CmdType) (cmd_arg : Device → Word) (ok : Word → Bool)
    (keep : Device → Word → Device) {v : Word} (hv : ok v = true) :
    Lib.KeepsTo CardSaid Answer (ask cmd_type cmd_arg ok keep)
      (Asks cmd_type cmd_arg ok keep) := by
  refine Lib.keepsTo_of_run (asks_total hv) fun {c c' done} h => ?_
  obtain ⟨l, hl, hword, hsent⟩ := send_says c cmd_type (cmd_arg c.device) 2000
  have hbegins : Lib.Begins Answer (Lib.Protocol.words (Asks cmd_type cmd_arg ok keep) c) l :=
    hsent.begins (m := []) ⟨{ c with device := keep c.device v }, v, hv, List.append_nil _, rfl⟩
  simp only [ask] at h
  generalize c.send (newCommand cmd_type (cmd_arg c.device) 2000) = r at h hl hword
  obtain ⟨sent, s⟩ := r
  cases sent with
  | false =>
    obtain ⟨rfl, rfl⟩ := Prod.mk.inj (Option.some.inj h)
    exact ⟨l, hl, fun h => (by cases h), fun _ => hbegins⟩
  | true =>
    obtain ⟨hdone, rfl⟩ := Prod.mk.inj (Option.some.inj h)
    refine ⟨l, hl, fun hok => ⟨_, hdone.trans hok, hword rfl, rfl⟩, fun _ => hbegins⟩

theorem silent_reset {c c' : Card} {ok : Bool} (h : resetCommandHandlingCircuit c = (ok, c')) :
    CardSaid c [] c' ∧ c'.device = c.device := by
  rw [resetCommandHandlingCircuit] at h
  split at h
  · obtain rfl := congrArg Prod.snd h
    exact ⟨.refl _, rfl⟩
  · obtain rfl := congrArg Prod.snd h
    exact ⟨.refl _, rfl⟩

theorem ack_said (v : Word) (c : Card) : CardSaid c [] (c.ack v) :=
  ⟨[.write .INTERRUPT v], rfl, rfl⟩

/-- **The question for the version.** -/
theorem checkV2Card_says (c : Card) : ∃ l, CardSaid c l (checkV2Card c).2 ∧
    AsksVersion (checkV2Card c).1 c l (checkV2Card c).2 := by
  obtain ⟨l, hl, hword, hsent⟩ := send_says c .SEND_IF_COND 0x1AA 200
  simp only [checkV2Card]
  generalize c.send (newCommand .SEND_IF_COND 0x1AA 200) = r at hl hword ⊢
  obtain ⟨sent, s⟩ := r
  cases sent with
  | true =>
    refine ⟨l, hl, hsent, rfl, fun hv => ⟨_, ?_, hword rfl⟩⟩
    simpa using hv
  | false =>
    have hnot : ∀ {t : Card}, CardSaid (c.after s) [] t ∧ t.device = c.device →
        CardSaid c l t ∧ AsksVersion false c l t := fun ht =>
      ⟨List.append_nil l ▸ hl.trans ht.1, hsent, ht.2, fun h => (by cases h)⟩
    simp only [if_true]
    split
    · exact ⟨l, hnot ⟨.refl _, rfl⟩⟩
    · split
      · cases hreset : resetCommandHandlingCircuit (c.after s) with
        | mk ok c' =>
          obtain ⟨hsaid, hdevice⟩ := silent_reset hreset
          cases ok with
          | false => exact ⟨l, hnot ⟨hsaid, hdevice⟩⟩
          | true => exact ⟨l, hnot ⟨hsaid.trans (ack_said _ _), hdevice⟩⟩
      · exact ⟨l, hnot ⟨.refl _, rfl⟩⟩

theorem asksIo_total : Lib.Protocol.Total AsksIo := fun c => ⟨_, c, .inl rfl, rfl⟩

theorem keepsTo_checkUsableCard : Lib.KeepsTo CardSaid Answer checkUsableCard AsksIo := by
  refine Lib.keepsTo_of_run asksIo_total fun {c c' done} h => ?_
  obtain ⟨l, hl, -, hsent⟩ := send_says c .IO_SET_OP_COND 0 1000
  have hboth : CardSaid c l c' ∧ c'.device = c.device := by
    simp only [checkUsableCard] at h
    generalize c.send (newCommand .IO_SET_OP_COND 0 1000) = r at h hl
    obtain ⟨sent, s⟩ := r
    have hend : ∀ {t : Card}, CardSaid (c.after s) [] t ∧ t.device = c.device →
        CardSaid c l t ∧ t.device = c.device := fun ht =>
      ⟨List.append_nil l ▸ hl.trans ht.1, ht.2⟩
    split at h
    · split at h
      · obtain rfl := congrArg Prod.snd (Option.some.inj h)
        exact hend ⟨.refl _, rfl⟩
      · split at h
        · cases hreset : resetCommandHandlingCircuit (c.after s) with
          | mk ok t =>
            obtain ⟨hsaid, hdevice⟩ := silent_reset hreset
            rw [hreset] at h
            cases ok with
            | false =>
              obtain rfl := congrArg Prod.snd (Option.some.inj h)
              exact hend ⟨hsaid, hdevice⟩
            | true =>
              obtain rfl := congrArg Prod.snd (Option.some.inj h)
              exact hend ⟨hsaid.trans (ack_said _ _), hdevice⟩
        · obtain rfl := congrArg Prod.snd (Option.some.inj h)
          exact hend ⟨.refl _, rfl⟩
    · obtain rfl := congrArg Prod.snd (Option.some.inj h)
      exact hend ⟨.refl _, rfl⟩
  refine ⟨l, hboth.1, fun _ => ⟨hsent, hboth.2⟩, fun _ => ?_⟩
  exact Lib.begins_of_prefix ⟨c, hsent, rfl⟩ (List.prefix_refl l)

/-! ### Application commands -/

section App

variable {device : Device} {s : State}

/-- **One attempt** goes through, or leaves a command to the next one. -/
inductive AppTry (device : Device) (s : State) (l : List Letter) : Prop
  | through (hok : (appCommand device s).1 = true) {v : Word}
    (hl : l = word (kCommands_ .APP_CMD) (appArg device) v ++
      word s.d.cmd_reg s.d.cmd_arg (appCommand device s).2.d.response0)
    (hreg : (appCommand device s).2.d.cmd_reg = s.d.cmd_reg)
  | unserved (hok : (appCommand device s).1 = false) {v : Word} {m : List Letter}
    (hl : l = word (kCommands_ .APP_CMD) (appArg device) v ++ m)
    (hm : Sent s.d.cmd_reg s.d.cmd_arg m)
    (hreg : (appCommand device s).2.d.cmd_reg = s.d.cmd_reg)
    (harg : (appCommand device s).2.d.cmd_arg = s.d.cmd_arg)
  | unanswered (hok : (appCommand device s).1 = false)
    (hl : Sent (kCommands_ .APP_CMD) (appArg device) l)
    (hreg : (appCommand device s).2.d.cmd_reg = kCommands_ .APP_CMD)
    (harg : (appCommand device s).2.d.cmd_arg = appArg device)

theorem appTry (device : Device) (hindex : ¬60 ≤ s.d.cmd_reg.index)
    (hblocks : s.d.transfer_blocks ≤ 0xffff) :
    ∃ l, Said s.regs_ l (appCommand device s).2.regs_ ∧ AppTry device s l := by
  obtain ⟨l, hl, ⟨v, m, rfl, hok, hm, hreg, harg⟩ | ⟨hok, hm, hreg, harg⟩⟩ :=
    appCommand_says device hindex hblocks
  · refine ⟨_, hl, ?_⟩
    cases hdone : (appCommand device s).1 with
    | true => exact .through hdone (congrArg _ (hok hdone)) hreg
    | false => exact .unserved hdone rfl hm hreg harg
  · exact ⟨l, hl, .unanswered hok hm hreg harg⟩

/-- An attempt that fails begins the words of one that goes through. -/
theorem AppTry.begins {l : List Letter} {n : ℕ} (h : AppTry device s l) :
    Lib.Begins Answer
      (fun w => ∃ v, OcrWord (appArg device) (n + 1) s.d.cmd_reg s.d.cmd_arg w v) l := by
  cases h with
  | through hok hl hreg =>
    rw [hl]
    exact Lib.begins_of_prefix ⟨_, OcrWord.through⟩ (List.prefix_refl _)
  | unserved hok hl hm hreg harg =>
    rw [hl]
    refine Lib.Begins.append (P := fun w => ∃ v, w = word s.d.cmd_reg s.d.cmd_arg v)
      (hm.begins (m := []) ⟨0, List.append_nil _⟩) fun w ⟨v', hv'⟩ => ?_
    exact ⟨v', hv' ▸ .through⟩
  | unanswered hok hl hreg harg => exact hl.begins (v := 0) ⟨0, .through⟩

/-- **The attempts.** One that fails is followed by the next one, for the command that is left. -/
theorem ocr_says (device : Device) {n : ℕ} (hindex : ¬60 ≤ s.d.cmd_reg.index)
    (hblocks : s.d.transfer_blocks = 0) :
    ∃ l, Said s.regs_ l (Lib.retry (appCommand device) (n + 1) s).2.regs_ ∧
      ((Lib.retry (appCommand device) (n + 1) s).1 = true →
        OcrWord (appArg device) (n + 1) s.d.cmd_reg s.d.cmd_arg l
          (Lib.retry (appCommand device) (n + 1) s).2.d.response0) ∧
      ((Lib.retry (appCommand device) (n + 1) s).1 = false → Lib.Begins Answer
        (fun w => ∃ v, OcrWord (appArg device) (n + 1) s.d.cmd_reg s.d.cmd_arg w v) l) := by
  induction n generalizing s with
  | zero =>
    obtain ⟨l, hl, htry⟩ := appTry device hindex (hblocks.trans_le (Nat.zero_le _))
    cases hok : (appCommand device s).1 with
    | true =>
      rw [Lib.retry_of_ok hok]
      refine ⟨l, hl, fun _ => ?_, fun _ => htry.begins⟩
      cases htry with
      | through _ hword => exact hword ▸ .through
      | unserved hfail => exact absurd (hok.symm.trans hfail) (by decide)
      | unanswered hfail => exact absurd (hok.symm.trans hfail) (by decide)
    | false =>
      rw [Lib.retry_of_failed hok]
      exact ⟨l, hl, fun h => (by cases h), fun _ => htry.begins⟩
  | succ n ih =>
    obtain ⟨l, hl, htry⟩ := appTry device hindex (hblocks.trans_le (Nat.zero_le _))
    have hkept : (appCommand device s).2.d.transfer_blocks = 0 :=
      (appCommand_transfer_blocks device s).trans hblocks
    cases htry with
    | through hok hword hreg =>
      rw [Lib.retry_of_ok hok]
      exact ⟨l, hl, fun _ => hword ▸ .through, fun _ => (AppTry.through hok hword hreg).begins⟩
    | unserved hok hword hm hreg harg =>
      obtain ⟨m, hrest, hthrough, hoff⟩ := ih (hreg ▸ hindex) hkept
      rw [hreg, harg] at hthrough hoff
      rw [Lib.retry_of_failed hok]
      refine ⟨l ++ m, hl.trans hrest, fun h => hword ▸ .unserved hm (hthrough h), fun h => ?_⟩
      exact (hoff h).append fun w ⟨v, hw⟩ => ⟨v, hword ▸ .unserved hm hw⟩
    | unanswered hok hsent hreg harg =>
      have happ : ¬60 ≤ (kCommands_ .APP_CMD).index := by decide
      obtain ⟨m, hrest, hthrough, hoff⟩ := ih (hreg ▸ happ) hkept
      rw [hreg, harg] at hthrough hoff
      rw [Lib.retry_of_failed hok]
      refine ⟨l ++ m, hl.trans hrest, fun h => .unanswered hsent (hthrough h), fun h => ?_⟩
      exact (hoff h).append fun w ⟨v, hw⟩ => ⟨v, .unanswered hsent hw⟩

/-- **Asking again and again.** -/
theorem sdhcLoop_says {device' : Device} {v2_card done : Bool} {t : State}
    (hreg : s.d.cmd_reg = kCommands_ .CTOcrCheck) (hblocks : s.d.transfer_blocks = 0)
    (h : sdhcLoop device v2_card fuel s = some (done, device', t)) :
    ∃ l, Said s.regs_ l t.regs_ ∧
      (done = true → ∃ v, BusyWord (appArg device) (ocrArg v2_card) l v ∧
        device' = device.withOcr v) ∧
      (done = false → Lib.Begins Answer
        (fun w => ∃ v, BusyWord (appArg device) (ocrArg v2_card) w v) l) := by
  induction fuel generalizing s with
  | zero => cases h
  | succ fuel ih =>
    rw [sdhcLoop] at h
    obtain ⟨l, hl, htry⟩ := appTry device
      (s := { s with d := { s.d with cmd_arg := ocrArg v2_card } })
      (by rw [hreg]; decide) (hblocks.trans_le (Nat.zero_le _))
    have hkept : (appCommand device
        { s with d := { s.d with cmd_arg := ocrArg v2_card } }).2.d.transfer_blocks = 0 :=
      (appCommand_transfer_blocks device _).trans hblocks
    have hready : cardReady 0x80000000 = true := by decide
    dsimp only at h htry
    generalize hr : appCommand device
      { s with d := { s.d with cmd_arg := ocrArg v2_card } } = r at h hl hkept
    obtain ⟨ok, u⟩ := r
    cases htry with
    | through hok hword hsame =>
      rw [hr] at hok hword hsame
      obtain rfl : ok = true := hok
      dsimp only at h hword hsame hl hkept
      rw [hreg] at hword hsame
      rw [if_neg (by simp)] at h
      split at h
      · rename_i hv
        obtain ⟨rfl, hrest⟩ := Prod.mk.inj (Option.some.inj h)
        obtain ⟨rfl, rfl⟩ := Prod.mk.inj hrest
        exact ⟨l, hl, fun _ => ⟨_, hword ▸ .ready hv, rfl⟩, fun h => (by cases h)⟩
      · rename_i hv
        obtain ⟨m, hm, hthrough, hoff⟩ := ih hsame hkept h
        refine ⟨l ++ m, hl.trans hm, fun hdone => ?_, fun hdone => ?_⟩
        · obtain ⟨v, hbusy, hdevice⟩ := hthrough hdone
          exact ⟨v, hword ▸ .busy (Bool.not_eq_true _ ▸ hv) hbusy, hdevice⟩
        · refine (hoff hdone).append fun w ⟨v, hw⟩ => ⟨v, ?_⟩
          exact hword ▸ .busy (Bool.not_eq_true _ ▸ hv) hw
    | unserved hok hword hm _ _ =>
      rw [hr] at hok
      obtain rfl : ok = false := hok
      obtain ⟨rfl, hrest⟩ := Prod.mk.inj (Option.some.inj h)
      obtain ⟨-, rfl⟩ := Prod.mk.inj hrest
      refine ⟨l, hl, fun h => (by cases h), fun _ => ?_⟩
      rw [hword]
      dsimp only at hm
      rw [hreg] at hm
      refine Lib.Begins.append
        (P := fun w => w = word (kCommands_ .CTOcrCheck) (ocrArg v2_card) 0x80000000)
        (hm.begins (m := []) (List.append_nil _)) fun w hw => ?_
      rw [hw]
      exact ⟨_, BusyWord.ready hready⟩
    | unanswered hok hsent _ _ =>
      rw [hr] at hok
      obtain rfl : ok = false := hok
      obtain ⟨rfl, hrest⟩ := Prod.mk.inj (Option.some.inj h)
      obtain ⟨-, rfl⟩ := Prod.mk.inj hrest
      exact ⟨l, hl, fun h => (by cases h), fun _ => hsent.begins (v := 0) ⟨_, .ready hready⟩⟩

end App

theorem asksOcr_total : Lib.Protocol.Total AsksOcr := fun c =>
  ⟨_, { c with device := { c.device with ocr := _ } }, 0, .through (v := 0), rfl⟩

theorem keepsTo_checkOcrStep : Lib.KeepsTo CardSaid Answer checkOcrStep AsksOcr := by
  refine Lib.keepsTo_of_run asksOcr_total fun {c c' done} h => ?_
  obtain ⟨l, hl, hthrough, hoff⟩ := ocr_says c.device (n := 4) (s := ocrStart c.regs_)
    (show ¬60 ≤ (kCommands_ .CTOcrCheck).index by decide) rfl
  have hattempts : kOcrAttempts = 4 + 1 := rfl
  simp only [checkOcrStep, checkOcr, hattempts] at h
  generalize Lib.retry (appCommand c.device) (4 + 1) (ocrStart c.regs_) = r at h hl hthrough hoff
  obtain ⟨ok, s⟩ := r
  cases ok with
  | true =>
    obtain ⟨rfl, rfl⟩ := Prod.mk.inj (Option.some.inj h)
    exact ⟨l, hl, fun _ => ⟨_, hthrough rfl, rfl⟩, fun h => (by cases h)⟩
  | false =>
    obtain ⟨rfl, rfl⟩ := Prod.mk.inj (Option.some.inj h)
    refine ⟨l, hl, fun h => (by cases h), fun _ => (hoff rfl).imp fun w ⟨v, hw⟩ => ?_⟩
    exact ⟨{ c with device := { c.device with ocr := _ } }, v, hw, rfl⟩

theorem asksBusy_total (v2_card : Bool) : Lib.Protocol.Total (AsksBusy v2_card) := fun c =>
  ⟨_, { c with device := c.device.withOcr 0x80000000 }, 0x80000000,
    .ready (v := 0) (by decide), rfl⟩

theorem keepsTo_checkSdhcSupport (fuel : ℕ) (v2_card : Bool) :
    Lib.KeepsTo CardSaid Answer (checkSdhcSupport fuel v2_card) (AsksBusy v2_card) := by
  refine Lib.keepsTo_of_run (asksBusy_total v2_card) fun {c c' done} h => ?_
  obtain ⟨⟨ok, device', s⟩, hloop, h⟩ := Option.map_eq_some_iff.mp h
  obtain ⟨rfl, rfl⟩ := Prod.mk.inj h
  obtain ⟨l, hl, hthrough, hoff⟩ := sdhcLoop_says rfl rfl hloop
  refine ⟨l, hl, hthrough, fun hdone => (hoff hdone).imp fun w ⟨v, hw⟩ => ?_⟩
  exact ⟨{ c with device := c.device.withOcr v }, v, hw, rfl⟩

/-- Changing the rate is no matter of the card. -/
theorem keepsTo_changeClockRateStep (fuel : ℕ) :
    Lib.KeepsTo CardSaid Answer (changeClockRateStep fuel) Nothing := by
  refine keepsTo_of_silent fun {c c' ok} h => ?_
  obtain ⟨divider, -, h⟩ := Option.bind_eq_some_iff.mp h
  obtain ⟨s, hs, h⟩ := Option.map_eq_some_iff.mp h
  obtain ⟨-, rfl⟩ := Prod.mk.inj h
  obtain ⟨k, -, rfl⟩ := Option.map_eq_some_iff.mp hs
  have hpoll : Said c.regs_ [] (c.regs_.poll .STATUS idle fuel).2 := by
    rw [Lib.Bus.poll_eq]
    exact .of_only ((Lib.Bus.Only.refl _).readN (silent_read (by decide)) _)
  exact ⟨hpoll, rfl⟩

theorem asksBlocklen_total : Lib.Protocol.Total AsksBlocklen := fun c => by
  cases hsdhc : c.device.sdhc with
  | true => exact ⟨[], c, rfl, by rw [if_pos hsdhc]⟩
  | false => exact ⟨_, c, rfl, by rw [hsdhc]; exact ⟨0, rfl⟩⟩

theorem keepsTo_setBlocklen : Lib.KeepsTo CardSaid Answer setBlocklen AsksBlocklen := by
  have hask := keepsTo_ask .SET_BLOCKLEN (fun _ => 512) (fun _ => true)
    (fun device _ => device) (v := 0) rfl
  refine Lib.keepsTo_of_run asksBlocklen_total fun {c c' done} h => ?_
  rw [setBlocklen] at h
  cases hsdhc : c.device.sdhc with
  | true =>
    rw [if_pos hsdhc] at h
    obtain ⟨rfl, rfl⟩ := Prod.mk.inj (Option.some.inj h)
    exact ⟨[], .refl _, fun _ => ⟨rfl, by rw [if_pos hsdhc]⟩, fun h => (by cases h)⟩
  | false =>
    rw [if_neg (by rw [hsdhc]; decide)] at h
    have hword : ∀ {w c'}, Asks .SET_BLOCKLEN (fun _ => 512) (fun _ => true)
        (fun device _ => device) c w c' → AsksBlocklen c w c' := fun {w c'} ⟨v, _, hw, hd⟩ =>
      ⟨hd, by rw [hsdhc]; exact ⟨v, hw⟩⟩
    cases done with
    | true =>
      obtain ⟨l, hl, hw⟩ := hask.through h
      exact ⟨l, hl, fun _ => hword hw, fun h => (by cases h)⟩
    | false =>
      obtain ⟨l, hl, hbegins⟩ := hask.off h
      exact ⟨l, hl, fun h => (by cases h), fun _ => hbegins.imp fun w ⟨t, hw⟩ => ⟨t, hword hw⟩⟩

theorem asksScr_total : Lib.Protocol.Total AsksScr := fun c =>
  ⟨_, { c with device := c.device.withBlocks 128 }, 0, 0, rfl, rfl⟩

/-- Reading the configuration. -/
theorem keepsTo_readScr : Lib.KeepsTo CardSaid Answer readScr AsksScr := by
  refine Lib.keepsTo_of_run asksScr_total fun {c c' done} h => ?_
  have hbsc : Said c.regs_ [] ((c.regs_.read .BLKSIZECNT).write .BLKSIZECNT
      ((c.regs_.next &&& ~~~0xFFF) ||| 0x200)) :=
    .of_only (((Lib.Bus.Only.refl _).read (silent_read (by decide))).write
      (silent_write (by decide) _))
  obtain ⟨l, hl, htry⟩ := appTry (c.device.withBlocks 2)
    (s := ⟨{ newCommand .CTSendSCR 0 30000 with transfer_blocks := 1, buffer := c.scr },
      (c.regs_.read .BLKSIZECNT).write .BLKSIZECNT ((c.regs_.next &&& ~~~0xFFF) ||| 0x200)⟩)
    (show ¬60 ≤ (kCommands_ .CTSendSCR).index by decide) (show 1 ≤ 0xffff by decide)
  have hscr : ∀ {w}, (∃ v v', w = word (kCommands_ .APP_CMD) (appArg c.device) v ++
      word (kCommands_ .CTSendSCR) 0 v') → ∃ t, AsksScr c w t := fun ⟨v, v', hw⟩ =>
    ⟨{ c with device := c.device.withBlocks 128 }, v, v', hw, rfl⟩
  simp only [readScr] at h
  dsimp only at htry
  generalize hr : appCommand (c.device.withBlocks 2)
    ⟨{ newCommand .CTSendSCR 0 30000 with transfer_blocks := 1, buffer := c.scr },
      (c.regs_.read .BLKSIZECNT).write .BLKSIZECNT ((c.regs_.next &&& ~~~0xFFF) ||| 0x200)⟩ = r
    at h hl
  obtain ⟨ok, s⟩ := r
  cases htry with
  | through hok hword _ =>
    rw [hr] at hok hword
    obtain rfl : ok = true := hok
    obtain ⟨rfl, rfl⟩ := Prod.mk.inj (Option.some.inj h)
    exact ⟨l, hbsc.trans hl, fun _ => ⟨_, _, hword, rfl⟩, fun h => (by cases h)⟩
  | unserved hok hword hm _ _ =>
    rw [hr] at hok
    obtain rfl : ok = false := hok
    obtain ⟨rfl, rfl⟩ := Prod.mk.inj (Option.some.inj h)
    refine ⟨l, hbsc.trans hl, fun h => (by cases h), fun _ => ?_⟩
    rw [hword]
    refine Lib.Begins.append (P := fun w => w = word (kCommands_ .CTSendSCR) 0 0)
      (hm.begins (m := []) (List.append_nil _)) fun w hw => ?_
    rw [hw]
    exact hscr ⟨_, 0, rfl⟩
  | unanswered hok hsent _ _ =>
    rw [hr] at hok
    obtain rfl : ok = false := hok
    obtain ⟨rfl, rfl⟩ := Prod.mk.inj (Option.some.inj h)
    exact ⟨l, hbsc.trans hl, fun h => (by cases h), fun _ =>
      hsent.begins (v := 0) (hscr ⟨0, 0, rfl⟩)⟩

/-! ### The bring-up -/

/-- The initial steps, before the card is spoken to. -/
theorem keepsTo_resetController : Lib.KeepsTo CardSaid Answer resetController Nothing :=
  keepsTo_of_silent fun {c c' ok} h => by
    obtain rfl := congrArg Prod.snd (Option.some.inj h)
    exact ⟨.refl _, rfl⟩

theorem keepsTo_isCardInserted : Lib.KeepsTo CardSaid Answer isCardInserted Nothing :=
  keepsTo_of_silent fun {c c' ok} h => by
    obtain rfl := congrArg Prod.snd (Option.some.inj h)
    exact ⟨⟨[.read .STATUS c.regs_.next], rfl, rfl⟩, rfl⟩

theorem keepsTo_setupInitialClockRate :
    Lib.KeepsTo CardSaid Answer setupInitialClockRate Nothing :=
  keepsTo_of_silent fun {c c' ok} h => by
    obtain ⟨divider, -, h⟩ := Option.map_eq_some_iff.mp h
    dsimp only at h
    split at h
    · obtain rfl := congrArg Prod.snd h
      exact ⟨.refl _, rfl⟩
    · obtain rfl := congrArg Prod.snd h
      exact ⟨.refl _, rfl⟩

theorem keepsTo_setupHostIrqs : Lib.KeepsTo CardSaid Answer (always setupHostIrqs) Nothing :=
  keepsTo_always (fun _ => ⟨[.write .INTERRUPT 0xFFFFFFFF], rfl, rfl⟩) fun _ => rfl

/-- Blocks have no size while the card is brought up. -/
def ForgetsBlocks (c : Card) (w : List Letter) (c' : Card) : Prop :=
  w = [] ∧ c'.device = (noBlockSize c).device

theorem keepsTo_noBlockSize : Lib.KeepsTo CardSaid Answer (always noBlockSize) ForgetsBlocks where
  total c := ⟨[], noBlockSize c, rfl, rfl⟩
  through h := by
    obtain rfl := congrArg Prod.snd (Option.some.inj h)
    exact ⟨[], .refl _, rfl, rfl⟩
  off h := by cases h

/-- What is asked once the version of the card is known. -/
def AsksCard (v2_card : Bool) : Lib.Protocol Card Letter :=
  Lib.Protocol.seq AsksIo <| Lib.Protocol.seq AsksOcr <| Lib.Protocol.seq (AsksBusy v2_card) <|
    Lib.Protocol.seq Nothing <|
    Lib.Protocol.seq (Lib.Protocol.seq
      (Asks .ALL_SEND_CID (fun _ => 0) (fun _ => true) fun device _ => device)
      (Asks .SEND_RELATIVE_ADDR (fun _ => 0) (fun v => v >>> 8 &&& 1 != 0) Device.withRca)) <|
    Lib.Protocol.seq
      (Asks .SELECT_CARD (fun device => device.rca <<< 16) selected fun device _ => device) <|
    Lib.Protocol.seq (Lib.Protocol.seq AsksBlocklen AsksScr) Nothing

/-- **What is said during a bring-up**, one question after the other. -/
def Bringup : Lib.Protocol Card Letter :=
  Lib.Protocol.seq Nothing <| Lib.Protocol.seq Nothing <| Lib.Protocol.seq Nothing <|
    Lib.Protocol.seq Nothing <| Lib.Protocol.seq Nothing <| Lib.Protocol.seq ForgetsBlocks <|
    Lib.Protocol.seq (Asks .GO_IDLE_STATE (fun _ => 0) (fun _ => true) fun device _ => device)
    fun c w c' => ∃ v2_card, (Lib.Protocol.seq (AsksVersion v2_card) (AsksCard v2_card)) c w c'

theorem keepsTo_card (fuel : ℕ) (v2_card : Bool) : Lib.KeepsTo CardSaid Answer
    (andThen checkUsableCard <| andThen checkOcrStep <|
      andThen (checkSdhcSupport fuel v2_card) <| andThen (changeClockRateStep fuel) <|
      andThen checkRca <| andThen selectCard <| andThen setScr <|
      always (Card.ack 0xFFFFFFFF)) (AsksCard v2_card) := by
  have hrec := records_cardSaid
  have hack : Lib.KeepsTo CardSaid Answer (always (Card.ack 0xFFFFFFFF)) Nothing :=
    keepsTo_always (ack_said _) fun _ => rfl
  have hscr := keepsTo_setBlocklen.andThen hrec keepsTo_readScr
  have hrca := (keepsTo_ask .ALL_SEND_CID (fun _ => 0) (fun _ => true) (fun device _ => device)
    (v := 0) rfl).andThen hrec (keepsTo_ask .SEND_RELATIVE_ADDR (fun _ => 0)
      (fun v => v >>> 8 &&& 1 != 0) Device.withRca (v := 0x100) (by decide))
  have hselect := keepsTo_ask .SELECT_CARD (fun device => device.rca <<< 16) selected
    (fun device _ => device) (v := 0x600) (by decide)
  exact keepsTo_checkUsableCard.andThen hrec <| keepsTo_checkOcrStep.andThen hrec <|
    (keepsTo_checkSdhcSupport fuel v2_card).andThen hrec <|
    (keepsTo_changeClockRateStep fuel).andThen hrec <| hrca.andThen hrec <|
    hselect.andThen hrec <| hscr.andThen hrec hack

/-- **`ResetCard` keeps to the bring-up**, whatever the registers return. -/
theorem keepsTo_resetCard (fuel : ℕ) :
    Lib.KeepsTo CardSaid Answer (resetCard fuel) Bringup := by
  have hrec := records_cardSaid
  have hpower : Lib.KeepsTo CardSaid Answer (always powerOn) Nothing :=
    keepsTo_always (fun _ => .refl _) fun _ => rfl
  have hidle : Lib.KeepsTo CardSaid Answer goIdleState _ :=
    keepsTo_ask .GO_IDLE_STATE (fun _ => 0) (fun _ => true) (fun device _ => device) (v := 0) rfl
  have hcard := Lib.KeepsTo.after hrec checkV2Card_says (keepsTo_card fuel)
  exact keepsTo_resetController.andThen hrec <| hpower.andThen hrec <|
    keepsTo_isCardInserted.andThen hrec <| keepsTo_setupInitialClockRate.andThen hrec <|
    keepsTo_setupHostIrqs.andThen hrec <| keepsTo_noBlockSize.andThen hrec <|
    hidle.andThen hrec hcard

/-! ### What is known in the end -/

/-- **What is known of a card that has been brought up**, and where it comes from. -/
structure Known (device : Device) (w : List Letter) : Prop where
  block_size : device.block_size = 512
  /-- The card has been reset first. -/
  idle : ∃ v, word (kCommands_ .GO_IDLE_STATE) 0 v <+: w
  /-- The kind of the card is what it has said when it was not busy any more. It has been offered
  high capacity only if it has understood the question for the version. -/
  kind : ∃ (v2_card : Bool) (v : Word), cardReady v = true ∧
    word (kCommands_ .CTOcrCheck) (ocrArg v2_card) v <:+: w ∧
    device.ocr = (v >>> 8 &&& 0xFFFF).setWidth 16 ∧ device.sdhc = (v >>> 30 &&& 1 != 0) ∧
    (v2_card = true → ∃ u : Word, u &&& 0xFFF = 0x1AA ∧
      word (kCommands_ .SEND_IF_COND) 0x1AA u <:+: w)
  /-- The address is the one that the card has given itself, and the card has been selected
  under it. -/
  address : ∃ v : Word, v >>> 8 &&& 1 ≠ 0 ∧ device.rca = v >>> 16 &&& 0xFFFF ∧
    word (kCommands_ .SEND_RELATIVE_ADDR) 0 v <:+: w
  select : ∃ v, selected v = true ∧ word (kCommands_ .SELECT_CARD) (device.rca <<< 16) v <:+: w
  /-- A card that is not of high capacity has been told the length of a block. -/
  blocklen : device.sdhc = false → ∃ v, word (kCommands_ .SET_BLOCKLEN) 512 v <:+: w
  /-- The configuration has been asked for last. -/
  scr : ∃ v v', word (kCommands_ .APP_CMD) (appArg device) v ++
    word (kCommands_ .CTSendSCR) 0 v' <:+ w

/-- The last answer is one with which the card was not busy. -/
theorem BusyWord.answer {app arg v : Word} {l : List Letter} (h : BusyWord app arg l v) :
    cardReady v = true ∧ word (kCommands_ .CTOcrCheck) arg v <:+: l := by
  induction h with
  | ready hv => exact ⟨hv, (List.suffix_append _ _).isInfix⟩
  | busy _ _ ih => exact ⟨ih.1, ih.2.trans (List.suffix_append _ _).isInfix⟩

/-- **What a bring-up makes known.** -/
theorem Bringup.known {w : List Letter} (h : Bringup c w c') : Known c'.device w := by
  obtain ⟨_, c₁, _, ⟨rfl, -⟩, ⟨_, c₂, _, ⟨rfl, -⟩, ⟨_, c₃, _, ⟨rfl, -⟩, ⟨_, c₄, _, ⟨rfl, -⟩,
    ⟨_, c₅, _, ⟨rfl, -⟩, ⟨_, c₆, _, ⟨rfl, -⟩, ⟨_, c₇, _, ⟨v₀, -, rfl, -⟩,
      ⟨v2_card, wv, c₈, wcard, ⟨-, -, hversion⟩, hcard, rfl⟩, rfl⟩, rfl⟩, rfl⟩, rfl⟩, rfl⟩,
      rfl⟩, rfl⟩ := h
  obtain ⟨wio, d₁, _, -, ⟨wocr, d₂, _, -, ⟨wbusy, d₃, _, ⟨v, hbusy, hd₃⟩,
    ⟨_, d₄, _, ⟨rfl, hd₄⟩, ⟨_, d₅, _, ⟨_, e, _, ⟨vcid, -, rfl, he⟩, ⟨vrca, hrca, rfl, hd₅⟩, rfl⟩,
      ⟨_, d₆, _, ⟨vsel, hsel, rfl, hd₆⟩, ⟨_, d₇, _,
        ⟨wblk, f, _, ⟨hf, hblk⟩, ⟨vapp, vscr, rfl, hd₇⟩, rfl⟩, ⟨rfl, hd⟩, rfl⟩, rfl⟩, rfl⟩, rfl⟩,
      rfl⟩, rfl⟩, rfl⟩ := hcard
  obtain ⟨hready, hanswer⟩ := hbusy.answer
  dsimp only at he hrca hd₅ hd₆
  have hselected : d₆.device = (d₂.device.withOcr v).withRca vrca := by
    rw [hd₆, hd₅, he, hd₄, hd₃]
  have hend : c'.device = d₆.device.withBlocks 128 := by rw [hd, hd₇, hf]
  have harg : d₅.device.rca = c'.device.rca := by rw [hend, hd₆]; rfl
  have happ : appArg f.device = appArg c'.device := by rw [hend, hf]; rfl
  dsimp only
  rw [harg, happ]
  -- the questions before the last one
  obtain ⟨l, hl⟩ : ∃ l, l = [word (kCommands_ .GO_IDLE_STATE) 0 v₀, wv, wio, wocr, wbusy,
      word (kCommands_ .ALL_SEND_CID) 0 vcid, word (kCommands_ .SEND_RELATIVE_ADDR) 0 vrca,
      word (kCommands_ .SELECT_CARD) (c'.device.rca <<< 16) vsel, wblk] := ⟨_, rfl⟩
  have hasked {q m : List Letter} (hq : q ∈ l) : q <:+: l.flatten ++ m :=
    (List.infix_of_mem_flatten hq).trans (List.prefix_append _ m).isInfix
  suffices h : Known c'.device (l.flatten ++ (word (kCommands_ .APP_CMD) (appArg c'.device) vapp ++
      word (kCommands_ .CTSendSCR) 0 vscr)) by
    rw [hl] at h
    simpa only [List.flatten_cons, List.flatten_nil, List.append_nil, List.nil_append,
      List.append_assoc] using h
  constructor
  case block_size => exact hend ▸ rfl
  case idle => exact ⟨v₀, hl ▸ List.append_assoc .. ▸ List.prefix_append _ _⟩
  case kind =>
    refine ⟨v2_card, v, hready, hanswer.trans (hasked (by simp [hl])), ?_, ?_, fun hv => ?_⟩
    · rw [hend, hselected]
      rfl
    · rw [hend, hselected]
      rfl
    · obtain ⟨u, hu, hwv⟩ := hversion hv
      exact ⟨u, hu, hwv ▸ hasked (by simp [hl])⟩
  case address =>
    refine ⟨vrca, by simpa using hrca, ?_, hasked (by simp [hl])⟩
    rw [hend, hselected]
    rfl
  case select => exact ⟨vsel, hsel, hasked (by simp [hl])⟩
  case blocklen =>
    intro hsdhc
    rw [hend] at hsdhc
    rw [if_neg (by rw [show d₆.device.sdhc = false from hsdhc]; decide)] at hblk
    obtain ⟨vblk, hvblk⟩ := hblk
    exact ⟨vblk, hvblk ▸ hasked (by simp [hl])⟩
  case scr => exact ⟨vapp, vscr, List.suffix_append _ _⟩

/-- **Opening the card.** Whatever the registers return, what is said to the card are the beginnings
of bring-ups, four at most. If `Open` succeeds the last one is whole, and all that is kept of the
card comes from the answers of that one. -/
theorem open_brings_up (base_clock : Word) (fuel : ℕ) {c c' : Card} {ok : Bool}
    (h : mmcOpen base_clock fuel c = some (ok, c')) :
    ∃ w, CardSaid c w c' ∧
      Lib.Tries (resetCard fuel) Answer Bringup MmcDriver.kRetryMax (c.fresh base_clock) w ok c' ∧
      (ok = true → ∃ l m, w = l ++ m ∧ Known c'.device m) := by
  obtain ⟨w, hw, htries⟩ := (keepsTo_resetCard fuel).again records_cardSaid h
  refine ⟨w, hw, htries, fun hok => ?_⟩
  subst hok
  obtain ⟨_, l, m, hm, hl⟩ := htries.ends
  exact ⟨l, m, hl, hm.known⟩

/-- A card of high capacity with the address `0x1234`, which is busy at first. -/
def highCapacity : Card where
  device := newCard
  scr := fun _ => 0
  version := 0
  base_clock := 0
  regs_ := ⟨fun i => [0x10000, 1, 1, 1, 1, 0x1AA, 1, 1, 0, 0, 0, 0, 1, 1, 0, 1, 1, 0xFF800, 1, 1, 0,
    1, 1, 0x00FF8000, 1, 1, 0, 1, 1, 0xC0FF8000, 0, 1, 1, 5, 6, 7, 8, 1, 1, 0x12340100, 1, 1,
    0x600, 2, 2, 0, 1, 1, 0, 1, 1, 0, 0x20, 0x20, 0x01803502, 0, 2, 2].getD i 0, 0, []⟩
  ctrl := ⟨fun _ => 2, 0, []⟩

/-- It is brought up, by looking at it twice at most. -/
theorem open_brings_up_high_capacity :
    ∃ c', mmcOpen 100000000 2 highCapacity = some (true, c') ∧
      (c'.device.sdhc = true ∧ c'.device.rca = 0x1234 ∧ c'.version = 3) ∧
      ∃ w, CardSaid highCapacity w c' ∧
        Lib.Tries (resetCard 2) Answer Bringup MmcDriver.kRetryMax
          (highCapacity.fresh 100000000) w true c' ∧
        ∃ l m, w = l ++ m ∧ Known c'.device m := by
  have hrun : (mmcOpen 100000000 2 highCapacity).map (fun r =>
      (r.1, r.2.device.sdhc, r.2.device.rca, r.2.version)) = some (true, true, 0x1234, 3) := by
    decide +kernel
  obtain ⟨⟨ok, c'⟩, hopen, hkept⟩ := Option.map_eq_some_iff.mp hrun
  simp only [Prod.mk.injEq] at hkept
  obtain ⟨rfl, hdevice⟩ := hkept
  obtain ⟨w, hw, htries, hknown⟩ := open_brings_up 100000000 2 hopen
  exact ⟨c', hopen, hdevice, w, hw, htries, hknown rfl⟩

end Emmc

end Evisor
