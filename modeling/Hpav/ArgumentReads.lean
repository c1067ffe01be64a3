import Mathlib.Tactic.Common
import Hpav.CommandLine
import Hpav.ParseFileAccess
import Hpav.SetKeyText

/-!
# The arguments a command reads

Every function of `test_mme_fct_name_table` is given `argc` arguments, counts them, and goes on by
index. Here the functions record what they read. `readsGiven_iff` says for which arguments none of
them reads a missing one, and prints its usage when there are too few.
-/

namespace Hpav

open CMem CScan CNumeral Decimal CallTrace

/-! ## Reading an argument -/

/-- A step of a function that reads its arguments, and may leave it. -/
abbrev ArgumentReading (α : Type) := Calls Int Leave α

section

variable (argv : List CString)

def readArgument (i : Nat) : ArgumentReading CString := do
  call i
  ofExcept (argument argv i)

/-- `atoi(argv[i])` -/
def readNumber (i : Nat) : ArgumentReading Int := do
  let a ← readArgument argv i
  pure (atoi a)

/-- `hpav_stomac(argv[i], ...)` -/
def readAddress (i : Nat) : ArgumentReading Mac := do
  let a ← readArgument argv i
  match stomac a with
  | none => leave .usage
  | some mac => pure mac

/-- `dest_mac`, broadcast by default. -/
def readDestMac : ArgumentReading Mac :=
  if argv.length > 0 then readAddress argv 0 else pure broadcast

def countAtLeast (n : Nat) : ArgumentReading Unit :=
  ofExcept (atLeast argv n)

/-- The value is that of the argument; the read is only written down beside it. -/
theorem outcome_readArgument (i : Nat) : (readArgument argv i).outcome = argument argv i := rfl

/-- A number is the one the model of the command reads. -/
theorem outcome_readNumber (i : Nat) : (readNumber argv i).outcome = number argv i := outcome_bind _ _

/-- An address is the one the model of the command reads. -/
theorem outcome_readAddress (i : Nat) : (readAddress argv i).outcome = address argv i := by
  unfold readAddress address
  rw [outcome_bind, outcome_readArgument]
  congr 1
  funext a
  cases stomac a with
  | none => rfl
  | some mac => rfl

/-- The address of the station is the one the model of the command reads. -/
theorem outcome_readDestMac : (readDestMac argv).outcome = destMac argv := by
  unfold readDestMac destMac
  split
  · exact outcome_readAddress argv 0
  · rfl

/-- The test of `argc` is the one of the model. -/
theorem outcome_countAtLeast (n : Nat) : (countAtLeast argv n).outcome = atLeast argv n := rfl

end

/-! ## The functions -/

/-- A command of which the reads are recorded. -/
abbrev MmeReader := Setting → LocalFs → List CString → Calls Int Fault Verdict

/-- Behind its parameters a function reads no argument. -/
def readTestMme {ρ α : Type} (sndrcv : Sndrcv ρ α) (timeoutMs numFragments : UInt32) (s : Setting)
    (parameters : ArgumentReading (Mac × ρ)) : Calls Int Fault Verdict :=
  ⟨parameters.log, testMme sndrcv timeoutMs numFragments s parameters.outcome⟩

def readEmpty {α : Type} (size : Nat) (sndrcv : Sndrcv (RequestOf size) α) : MmeReader :=
  fun s _ argv => readTestMme sndrcv 1000 0 s do
    let dest ← readDestMac argv
    pure (dest, requestOf size s.uninit [])

/-- `test_mme_mtk_vs_get_nw_info_req` -/
def readGetNwInfo : MmeReader := fun s _ argv =>
  readTestMme mtkVsGetNwInfoSndrcv 1000 0 s do
    let dest ← readDestMac argv
    pure (dest, requestOf 4 s.uninit [0, 0, 0, 0])

def readOneNumber {α : Type} (sndrcv : Sndrcv (RequestOf 1) α) : MmeReader :=
  fun s _ argv => readTestMme sndrcv 1000 0 s do
    countAtLeast argv 2
    let dest ← readDestMac argv
    let v ← readNumber argv 1
    pure (dest, requestOf 1 s.uninit [UInt8.ofInt v])

/-- `test_mme_mtk_vs_get_tonemask_req` -/
def readGetTonemask : MmeReader := fun s _ argv =>
  readTestMme mtkVsGetTonemaskSndrcv 1000 0 s do
    countAtLeast argv 1
    let dest ← readDestMac argv
    let peer ← readAddress argv 1
    pure (dest, requestOf 6 s.uninit peer.bytes)

/-- `test_mme_mtk_vs_get_tonemap_req` -/
def readGetTonemap : MmeReader := fun s _ argv =>
  readTestMme mtkVsGetTonemapSndrcv 2000 1 s do
    countAtLeast argv 6
    let remote ← readAddress argv 1
    let dest ← readDestMac argv
    let tmi ← readNumber argv 2
    let intId ← readNumber argv 3
    let direction ← readNumber argv 4
    let carrierGroup ← readNumber argv 5
    pure (dest, requestOf 10 s.uninit (remote.bytes ++
      [UInt8.ofInt tmi, UInt8.ofInt intId, UInt8.ofInt direction, UInt8.ofInt carrierGroup]))

/-- `test_mme_mtk_vs_get_snr_req` -/
def readGetSnr : MmeReader := fun s _ argv =>
  readTestMme mtkVsGetSnrSndrcv 1000 0 s do
    countAtLeast argv 4
    let dest ← readDestMac argv
    let remote ← readAddress argv 1
    let intIndex ← readNumber argv 2
    let carrierGroup ← readNumber argv 3
    pure (dest, requestOf 9 s.uninit (remote.bytes ++
      [UInt8.ofInt intIndex, s.uninit 7, UInt8.ofInt carrierGroup]))

/-- `test_mme_mtk_vs_get_link_stats_req` -/
def readGetLinkStats : MmeReader := fun s _ argv =>
  readTestMme mtkVsGetLinkStatsSndrcv 1000 0 s do
    countAtLeast argv 7
    let dest ← readDestMac argv
    let reqType ← readNumber argv 1
    let reqId ← readNumber argv 2
    let lid ← readNumber argv 3
    let tlFlag ← readNumber argv 4
    let mgmtFlag ← readNumber argv 5
    let desSrc ← readAddress argv 6
    pure (dest, requestOf 11 s.uninit ([UInt8.ofInt reqType, UInt8.ofInt reqId, UInt8.ofInt lid,
      UInt8.ofInt tlFlag, UInt8.ofInt mgmtFlag] ++ desSrc.bytes))

/-- `test_mme_mtk_vs_set_capture_state_req` -/
def readSetCaptureState : MmeReader := fun s _ argv =>
  readTestMme mtkVsSetCaptureStateSndrcv 1000 0 s do
    countAtLeast argv 5
    let dest ← readDestMac argv
    let remote ← readAddress argv 1
    let state ← readNumber argv 2
    let captured ← readNumber argv 3
    let capturedSource ← readNumber argv 4
    pure (dest, requestOf 9 s.uninit (remote.bytes ++
      [UInt8.ofInt state, UInt8.ofInt captured, UInt8.ofInt capturedSource]))

/-- `test_mme_mtk_vs_set_pwm_conf_req` -/
def readSetPwmConf : MmeReader := fun s _ argv =>
  readTestMme mtkVsSetPwmConfSndrcv 1000 0 s do
    if argv.length ≠ 10 then leave .usage
    let op ← readNumber argv 1
    let pwmMode ← readNumber argv 2
    let pwmMeasures ← readNumber argv 3
    let pwmPeriod ← readNumber argv 4
    let pwmFreqThr ← readNumber argv 5
    let pwmDutyCycleThr ← readNumber argv 6
    let pwmVoltThr ← readNumber argv 7
    let pwmSaradcLsb ← readNumber argv 8
    let pwmVoltageBias ← readNumber argv 9
    let dest ← readDestMac argv
    pure (dest, requestOf 15 s.uninit ([UInt8.ofInt op, UInt8.ofInt pwmMode, UInt8.ofInt pwmMeasures] ++
      short pwmPeriod ++ short pwmFreqThr ++ short pwmDutyCycleThr ++ short pwmVoltThr ++
      short pwmSaradcLsb ++ short pwmVoltageBias))

/-- `test_mme_mtk_vs_pwm_generation_req` -/
def readPwmGeneration : MmeReader := fun s _ argv =>
  readTestMme mtkVsPwmGenerationSndrcv 1000 0 s do
    countAtLeast argv 4
    let dest ← readDestMac argv
    let pwmMode ← readNumber argv 1
    let pwmFreq ← readNumber argv 2
    let pwmDutyCycle ← readNumber argv 3
    pure (dest, requestOf 5 s.uninit ([UInt8.ofInt pwmMode] ++ short pwmFreq ++ short pwmDutyCycle))

/-- `test_mme_mtk_vs_set_nvram_req` -/
def readSetNvram : MmeReader := fun s fs argv =>
  readTestMme mtkVsSetNvramSndrcv 1000 0 s do
    countAtLeast argv 3
    let blockIndex ← readNumber argv 1
    let file ← readArgument argv 2
    match fs.content file with
    | none => leave .localError
    | some content => do
      let data ← ofExcept (readBlock content (UInt32.ofInt blockIndex))
      let dest ← readDestMac argv
      let mmeSent ← ofExcept (setNvramReq s (UInt8.ofInt blockIndex) content.length data)
      pure (dest, mmeSent)

/-- The parameters of CM_SET_KEY.REQ. -/
def readSetKeyReq (s : Setting) (argv : List CString) : ArgumentReading (Mac × CmSetKeyReq) := do
  countAtLeast argv 11
  let dest ← readDestMac argv
  let keyType ← readNumber argv 1
  let myNonce ← readArgument argv 2
  let yourNonce ← readArgument argv 3
  let pid ← readNumber argv 4
  let prn ← readNumber argv 5
  let pmn ← readNumber argv 6
  let ccoCap ← readNumber argv 7
  let nid ← readArgument argv 8
  let newEks ← readNumber argv 9
  let newKey ← readArgument argv 10
  pure (dest, requestOf 38 s.uninit ([UInt8.ofInt keyType] ++ unsignedAt s 1 myNonce ++
    unsignedAt s 5 yourNonce ++ [UInt8.ofInt pid] ++ short prn ++ [UInt8.ofInt pmn, UInt8.ofInt ccoCap] ++
    hpavStonid nid ++ [UInt8.ofInt newEks] ++ hpavStomd5sum newKey))

/-- The password is read if it is there. -/
def readSetKeyPassword (s : Setting) (argv : List CString) : ArgumentReading ((Mac × CmSetKeyReq) × Option CString) := do
  let parameters ← readSetKeyReq s argv
  if argv.length ≥ 12 then do
    let devicePassword ← readArgument argv 11
    pure (parameters, some devicePassword)
  else pure (parameters, none)

/-- `test_mme_cm_set_key_req` -/
def readSetKey : MmeReader := fun s _ argv =>
  let parameters := readSetKeyPassword s argv
  match parameters.outcome with
  | .error leave => ⟨parameters.log, leave.verdict⟩
  | .ok (p, some devicePassword) =>
    ⟨parameters.log, testMme (cmSetKeyEncryptedSndrcv ⟨s.lib, s.rand, devicePassword⟩ s.uninit) 1000 1 s (.ok p)⟩
  | .ok (p, none) => ⟨parameters.log, testMme cmSetKeySndrcv 1000 1 s (.ok p)⟩

/-- The parameters of CM_AMP_MAP.REQ in front of the file. -/
def readAmpMapParameters (argv : List CString) : ArgumentReading (Mac × Int) := do
  countAtLeast argv 2
  let dest ← readDestMac argv
  let amlen ← readNumber argv 1
  pure (dest, amlen)

/-- `test_mme_cm_amp_map_req` -/
def readAmpMap : MmeReader := fun s fs argv =>
  let parameters := readAmpMapParameters argv
  match parameters.outcome with
  | .error leave => ⟨parameters.log, leave.verdict⟩
  | .ok (dest, amlen) =>
    if amlen > 3528 ∨ amlen < 0 then ⟨parameters.log, .ok ⟨-1, [.badValue]⟩⟩
    else
      let file := readArgument argv 2
      ⟨parameters.log ++ file.log,
        if argv.length ≤ 2 then .ok ⟨-1, [.badValue]⟩
        else testMme cmAmpMapSndrcv 1000 1 s ((ampMapReq s fs argv amlen).map fun mmeSent => (dest, mmeSent))⟩

def MmeFct.reader : MmeFct → MmeReader
  | .cmSetKeyReq => readSetKey
  | .cmAmpMapReq => readAmpMap
  | .mtkVsGetVersionReq => readEmpty 4 mtkVsGetVersionSndrcv
  | .mtkVsResetReq => readEmpty 4 mtkVsResetSndrcv
  | .mtkVsGetTonemaskReq => readGetTonemask
  | .mtkVsGetEthPhyReq => readEmpty 4 mtkVsGetEthPhySndrcv
  | .mtkVsEthStatsReq => readOneNumber mtkVsEthStatsSndrcv
  | .mtkVsGetStatusReq => readEmpty 4 mtkVsGetStatusSndrcv
  | .mtkVsGetTonemapReq => readGetTonemap
  | .mtkVsGetSnrReq => readGetSnr
  | .mtkVsGetLinkStatsReq => readGetLinkStats
  | .mtkVsGetNwInfoReq => readGetNwInfo
  | .mtkVsSetCaptureStateReq => readSetCaptureState
  | .mtkVsSetNvramReq => readSetNvram
  | .mtkVsGetNvramReq => readOneNumber mtkVsGetNvramSndrcv
  | .mtkVsGetPwmStatsReq => readEmpty 4 mtkVsGetPwmStatsSndrcv
  | .mtkVsGetPwmConfReq => readEmpty 4 mtkVsGetPwmConfSndrcv
  | .mtkVsSetPwmConfReq => readSetPwmConf
  | .mtkVsPwmGenerationReq => readPwmGeneration
  | .mtkVsSpiStatsReq => readOneNumber mtkVsSpiStatsSndrcv
  | .mtkVsSetTxCaliReq => readOneNumber mtkVsSetTxCaliSndrcv
  | .vcVsSetSnifferConfReq => readOneNumber vcVsSetSnifferConfSndrcv
  | .vcVsSetRemoteAccessReq => readOneNumber vcVsSetRemoteAccessSndrcv
  | .vcVsGetRemoteAccessReq => readEmpty 4 vcVsGetRemoteAccessSndrcv

/-! ## The same functions -/

/-- What is read decides on the request as before. -/
theorem outcome_readTestMme {ρ α : Type} (sndrcv : Sndrcv ρ α) (timeoutMs numFragments : UInt32) (s : Setting)
    {parameters : ArgumentReading (Mac × ρ)} {x : Except Leave (Mac × ρ)} (h : parameters.outcome = x) :
    (readTestMme sndrcv timeoutMs numFragments s parameters).outcome = testMme sndrcv timeoutMs numFragments s x := by
  rw [← h]
  rfl

section

variable (s : Setting) (fs : LocalFs) (argv : List CString)

/-- `test_mme_mtk_vs_set_nvram_req` with its reads ends as the model of the command does. -/
theorem outcome_readSetNvram : (readSetNvram s fs argv).outcome = testMmeMtkVsSetNvramReq s fs argv := by
  apply outcome_readTestMme
  simp only [outcome_bind, outcome_countAtLeast, outcome_readNumber, outcome_readArgument]
  congr 1
  funext _
  congr 1
  funext blockIndex
  congr 1
  funext file
  -- the address is read behind the file
  cases fs.content file with
  | none => rfl
  | some content =>
    simp only [outcome_bind, outcome_readDestMac]
    rfl

/-- The request for a key is filled in as in the model of the command. -/
theorem outcome_readSetKeyReq : (readSetKeyReq s argv).outcome = setKeyParameters s argv := by
  simp only [readSetKeyReq, outcome_bind, outcome_countAtLeast, outcome_readNumber, outcome_readArgument,
    outcome_readDestMac, outcome_pure]
  rfl

/-- `test_mme_cm_set_key_req` with its reads ends as the model of the command does. -/
theorem outcome_readSetKey : (readSetKey s fs argv).outcome = testMmeCmSetKeyReq s fs argv := by
  rw [testMmeCmSetKeyReq_eq]
  unfold readSetKey readSetKeyPassword setKeySndrcv
  have hparameters := outcome_readSetKeyReq s argv
  cases hread : (readSetKeyReq s argv).outcome with
  | error reason =>
    rw [hread] at hparameters
    rw [← hparameters]
    rw [bind_of_error hread]
    rfl
  | ok p =>
    rw [hread] at hparameters
    rw [← hparameters]
    rw [bind_of_ok hread]
    -- the password decides which of the two exchanges it is
    cases hpassword : argv[11]? with
    | none =>
      rw [if_neg (not_le.mpr (Nat.lt_succ_of_le (List.getElem?_eq_none_iff.mp hpassword)))]
      rfl
    | some devicePassword =>
      obtain ⟨hlt, -⟩ := List.getElem?_eq_some_iff.mp hpassword
      have hargument : (readArgument argv 11).outcome = .ok devicePassword := argument_ok.mpr hpassword
      rw [if_pos (by omega), bind_of_ok hargument]
      rfl

/-- `test_mme_cm_amp_map_req` with its reads ends as the model of the command does. -/
theorem outcome_readAmpMap : (readAmpMap s fs argv).outcome = testMmeCmAmpMapReq s fs argv := by
  have hparameters : (readAmpMapParameters argv).outcome = ampMapParameters argv := by
    simp only [readAmpMapParameters, outcome_bind, outcome_countAtLeast, outcome_readNumber, outcome_readDestMac,
      outcome_pure]
    rfl
  unfold readAmpMap testMmeCmAmpMapReq
  simp only [hparameters]
  cases ampMapParameters argv with
  | error reason => rfl
  | ok p =>
    obtain ⟨dest, amlen⟩ := p
    -- the length is looked at in front of the file
    by_cases hrange : amlen > 3528 ∨ amlen < 0
    · simp only [if_pos hrange]
    · by_cases hmissing : argv.length ≤ 2
      · simp only [if_neg hrange, if_pos hmissing]
      · simp only [if_neg hrange, if_neg hmissing]

/-- Recording what is read changes nothing. -/
theorem outcome_reader (fct : MmeFct) : (fct.reader s fs argv).outcome = fct.command s fs argv := by
  cases fct with
  | cmSetKeyReq => exact outcome_readSetKey s fs argv
  | cmAmpMapReq => exact outcome_readAmpMap s fs argv
  | mtkVsSetNvramReq => exact outcome_readSetNvram s fs argv
  | mtkVsSetPwmConfReq =>
    -- the only one that tests for an exact number
    apply outcome_readTestMme
    by_cases hten : argv.length ≠ 10
    · rw [if_pos hten, if_pos hten]
      rfl
    · rw [if_neg hten, if_neg hten]
      simp only [outcome_bind, outcome_readNumber, outcome_readDestMac, outcome_pure]
  | _ =>
    apply outcome_readTestMme
    simp only [outcome_bind, outcome_countAtLeast, outcome_readNumber, outcome_readAddress, outcome_readDestMac,
      outcome_pure]

end

/-! ## What is read -/

section

variable {argv : List CString}

/-- An argument in front of the end is a given one. -/
theorem readArgument_given {i : Nat} (h : i < argv.length) : (readArgument argv i).All (Given argv) :=
  all_bind (all_call ⟨by omega, by exact_mod_cast h⟩) fun _ _ => all_ofExcept _

/-- A number in front of the end is a given argument. -/
theorem readNumber_given {i : Nat} (h : i < argv.length) : (readNumber argv i).All (Given argv) :=
  all_bind (readArgument_given h) fun _ _ => all_pure _

/-- An address in front of the end is a given argument. -/
theorem readAddress_given {i : Nat} (h : i < argv.length) : (readAddress argv i).All (Given argv) := by
  apply all_bind (readArgument_given h)
  intro a _
  split
  · exact all_leave _
  · exact all_pure _

/-- The address of the station is read only if there is an argument. -/
theorem readDestMac_given : (readDestMac argv).All (Given argv) := by
  unfold readDestMac
  split
  · rename_i h
    exact readAddress_given h
  · exact all_pure _

/-- The first argument is no address. -/
def NoStation (argv : List CString) : Prop :=
  ∀ a, argv[0]? = some a → stomac a = none

/-- An argument that is no address ends in the usage. -/
theorem noStation_usage (hlt : 0 < argv.length) (h : NoStation argv) : (readDestMac argv).outcome = .error .usage := by
  have hfirst := List.getElem?_eq_getElem hlt
  have hargument : argument argv 0 = .ok argv[0] := argument_ok.mpr hfirst
  rw [outcome_readDestMac]
  unfold destMac address
  rw [if_pos hlt, hargument]
  simp only [bind, Except.bind, h _ hfirst]

/-- Where the usage is not printed, there is an argument and it is an address. -/
theorem station_ok (h : ¬NoStation argv) : 0 < argv.length ∧ ∃ mac, (readDestMac argv).outcome = .ok mac := by
  simp only [NoStation, not_forall] at h
  obtain ⟨a, ha, h⟩ := h
  obtain ⟨mac, hmac⟩ := Option.ne_none_iff_exists'.mp h
  obtain ⟨hlt, -⟩ := List.getElem?_eq_some_iff.mp ha
  have hargument : argument argv 0 = .ok a := argument_ok.mpr ha
  refine ⟨hlt, mac, ?_⟩
  rw [outcome_readDestMac]
  unfold destMac address
  rw [if_pos hlt, hargument]
  simp only [bind, Except.bind, hmac]

/-- Behind the count there are as many arguments. -/
theorem count_given {α : Type} {n : Nat} {f : Unit → ArgumentReading α} (hf : n ≤ argv.length → (f ()).All (Given argv)) :
    (countAtLeast argv n >>= f).All (Given argv) :=
  all_bind (all_ofExcept _) fun _ h => hf (atLeast_ok.mp h)

/-- The address of the station may be read at any place. -/
theorem dest_given {α : Type} {f : Mac → ArgumentReading α} (hf : ∀ dest, (f dest).All (Given argv)) :
    (readDestMac argv >>= f).All (Given argv) :=
  all_bind readDestMac_given fun dest _ => hf dest

/-- Behind a test of `argc` a number may be read. -/
theorem number_given {α : Type} {n i : Nat} (hn : n ≤ argv.length) (hi : i < n) {f : Int → ArgumentReading α}
    (hf : ∀ v, (f v).All (Given argv)) : (readNumber argv i >>= f).All (Given argv) :=
  all_bind (readNumber_given (by omega)) fun v _ => hf v

/-- Behind a test of `argc` a string may be read. -/
theorem argument_given {α : Type} {n i : Nat} (hn : n ≤ argv.length) (hi : i < n) {f : CString → ArgumentReading α}
    (hf : ∀ a, (f a).All (Given argv)) : (readArgument argv i >>= f).All (Given argv) :=
  all_bind (readArgument_given (by omega)) fun a _ => hf a

/-- Behind a test of `argc` an address may be read. -/
theorem address_given {α : Type} {n i : Nat} (hn : n ≤ argv.length) (hi : i < n) {f : Mac → ArgumentReading α}
    (hf : ∀ mac, (f mac).All (Given argv)) : (readAddress argv i >>= f).All (Given argv) :=
  all_bind (readAddress_given (by omega)) fun mac _ => hf mac

variable (s : Setting) (fs : LocalFs)

/-- The request for a key is read from given arguments. -/
theorem readSetKeyReq_given : (readSetKeyReq s argv).All (Given argv) := by
  apply count_given
  intro hn
  apply dest_given
  intro dest
  apply number_given hn (by decide)
  intro keyType
  apply argument_given hn (by decide)
  intro myNonce
  apply argument_given hn (by decide)
  intro yourNonce
  apply number_given hn (by decide)
  intro pid
  apply number_given hn (by decide)
  intro prn
  apply number_given hn (by decide)
  intro pmn
  apply number_given hn (by decide)
  intro ccoCap
  apply argument_given hn (by decide)
  intro nid
  apply number_given hn (by decide)
  intro newEks
  apply argument_given hn (by decide)
  intro newKey
  exact all_pure _

/-- `test_mme_cm_set_key_req` reads given arguments only, the password included. -/
theorem readSetKey_given : (readSetKey s fs argv).All (Given argv) := by
  have hparameters : (readSetKeyPassword s argv).All (Given argv) := by
    apply all_bind (readSetKeyReq_given s)
    intro p _
    split
    · exact all_bind (readArgument_given (by omega)) fun _ _ => all_pure _
    · exact all_pure _
  unfold readSetKey
  simp only
  split
  · exact hparameters
  · exact hparameters
  · exact hparameters

/-- `test_mme_mtk_vs_set_nvram_req` reads given arguments only. -/
theorem readSetNvram_given : (readSetNvram s fs argv).All (Given argv) := by
  apply count_given
  intro hn
  apply number_given hn (by decide)
  intro blockIndex
  apply argument_given hn (by decide)
  intro file
  split
  · exact all_leave _
  · refine all_bind (all_ofExcept _) ?_
    intro data _
    apply dest_given
    intro dest
    exact all_bind (all_ofExcept _) fun _ _ => all_pure _

/-- A request without parameters reads the address of the station at most. -/
theorem readEmpty_given {α : Type} (size : Nat) (sndrcv : Sndrcv (RequestOf size) α) :
    (readEmpty size sndrcv s fs argv).All (Given argv) := by
  apply dest_given
  intro dest
  exact all_pure _

/-- The number of a request with one number is the second argument, and two are tested for. -/
theorem readOneNumber_given {α : Type} (sndrcv : Sndrcv (RequestOf 1) α) :
    (readOneNumber sndrcv s fs argv).All (Given argv) := by
  apply count_given
  intro hn
  apply dest_given
  intro dest
  apply number_given hn (by decide)
  intro v
  exact all_pure _

/-- The last argument of `test_mme_mtk_vs_get_tonemap_req` is the sixth, and six are tested for. -/
theorem readGetTonemap_given : (readGetTonemap s fs argv).All (Given argv) := by
  apply count_given
  intro hn
  apply address_given hn (by decide)
  intro remote
  apply dest_given
  intro dest
  apply number_given hn (by decide)
  intro tmi
  apply number_given hn (by decide)
  intro intId
  apply number_given hn (by decide)
  intro direction
  apply number_given hn (by decide)
  intro carrierGroup
  exact all_pure _

/-- The last argument of `test_mme_mtk_vs_get_snr_req` is the fourth, and four are tested for. -/
theorem readGetSnr_given : (readGetSnr s fs argv).All (Given argv) := by
  apply count_given
  intro hn
  apply dest_given
  intro dest
  apply address_given hn (by decide)
  intro remote
  apply number_given hn (by decide)
  intro intIndex
  apply number_given hn (by decide)
  intro carrierGroup
  exact all_pure _

/-- The last argument of `test_mme_mtk_vs_get_link_stats_req` is the seventh, and seven are
tested for. -/
theorem readGetLinkStats_given : (readGetLinkStats s fs argv).All (Given argv) := by
  apply count_given
  intro hn
  apply dest_given
  intro dest
  apply number_given hn (by decide)
  intro reqType
  apply number_given hn (by decide)
  intro reqId
  apply number_given hn (by decide)
  intro lid
  apply number_given hn (by decide)
  intro tlFlag
  apply number_given hn (by decide)
  intro mgmtFlag
  apply address_given hn (by decide)
  intro desSrc
  exact all_pure _

/-- The last argument of `test_mme_mtk_vs_set_capture_state_req` is the fifth, and five are
tested for. -/
theorem readSetCaptureState_given : (readSetCaptureState s fs argv).All (Given argv) := by
  apply count_given
  intro hn
  apply dest_given
  intro dest
  apply address_given hn (by decide)
  intro remote
  apply number_given hn (by decide)
  intro state
  apply number_given hn (by decide)
  intro captured
  apply number_given hn (by decide)
  intro capturedSource
  exact all_pure _

/-- The last argument of `test_mme_mtk_vs_pwm_generation_req` is the fourth, and four are tested
for. -/
theorem readPwmGeneration_given : (readPwmGeneration s fs argv).All (Given argv) := by
  apply count_given
  intro hn
  apply dest_given
  intro dest
  apply number_given hn (by decide)
  intro pwmMode
  apply number_given hn (by decide)
  intro pwmFreq
  apply number_given hn (by decide)
  intro pwmDutyCycle
  exact all_pure _

/-- `test_mme_mtk_vs_set_pwm_conf_req` takes ten arguments, no fewer and no more. -/
theorem readSetPwmConf_given : (readSetPwmConf s fs argv).All (Given argv) := by
  unfold readSetPwmConf
  by_cases hten : argv.length ≠ 10
  · rw [if_pos hten]
    intro i hi
    cases hi
  · rw [if_neg hten]
    have hn : 10 ≤ argv.length := by omega
    apply number_given hn (by decide)
    intro op
    apply number_given hn (by decide)
    intro pwmMode
    apply number_given hn (by decide)
    intro pwmMeasures
    apply number_given hn (by decide)
    intro pwmPeriod
    apply number_given hn (by decide)
    intro pwmFreqThr
    apply number_given hn (by decide)
    intro pwmDutyCycleThr
    apply number_given hn (by decide)
    intro pwmVoltThr
    apply number_given hn (by decide)
    intro pwmSaradcLsb
    apply number_given hn (by decide)
    intro pwmVoltageBias
    apply dest_given
    intro dest
    exact all_pure _

/-- With a first argument that is no address the second one is not looked at. -/
theorem readGetTonemask_given (h : argv.length = 1 → NoStation argv) : (readGetTonemask s fs argv).All (Given argv) := by
  apply count_given
  intro hone
  apply all_bind readDestMac_given
  intro dest hdest
  by_cases hlength : argv.length = 1
  · rw [noStation_usage hone (h hlength)] at hdest
    cases hdest
  · have hn : 2 ≤ argv.length := by omega
    apply address_given hn (by decide)
    intro peer
    exact all_pure _

/-- The station and the length of the map lie in front of the two that are tested for. -/
theorem readAmpMapParameters_given : (readAmpMapParameters argv).All (Given argv) := by
  apply count_given
  intro hn
  apply dest_given
  intro dest
  apply number_given hn (by decide)
  intro amlen
  exact all_pure _

/-- The file of the map is a third argument, and two are tested for: with two the usage has to
come first. -/
theorem readAmpMap_given (h : argv.length = 2 → NoStation argv) : (readAmpMap s fs argv).All (Given argv) := by
  have hparameters := @readAmpMapParameters_given argv
  unfold readAmpMap
  simp only
  split
  · exact hparameters
  · rename_i dest amlen houtcome
    have hthree : 3 ≤ argv.length := by
      obtain ⟨_, hcount, hrest⟩ := bind_eq_ok.mp ((outcome_bind _ _).symm.trans houtcome)
      have hn := atLeast_ok.mp hcount
      by_contra hfew
      -- the station of two arguments was no address
      have hdest := noStation_usage (by omega) (h (by omega))
      rw [outcome_bind_of_error hdest] at hrest
      cases hrest
    split
    · exact hparameters
    · intro i hi
      rcases List.mem_append.mp hi with hi | hi
      · exact hparameters i hi
      · exact readArgument_given (by omega) i hi

end

/-! ## The usage -/

section

variable {argv : List CString}

/-- With fewer arguments than are tested for the usage is printed. -/
theorem count_usage {α : Type} {n : Nat} (h : argv.length < n) (f : Unit → ArgumentReading α) :
    (countAtLeast argv n >>= f).outcome = .error .usage := by
  have hcount : (countAtLeast argv n).outcome = .error .usage := if_pos h
  exact outcome_bind_of_error hcount f

/-- The usage of the parameters is the usage of the command. -/
theorem readTestMme_usage {ρ α : Type} (sndrcv : Sndrcv ρ α) (timeoutMs numFragments : UInt32) (s : Setting)
    {parameters : ArgumentReading (Mac × ρ)} (h : parameters.outcome = .error .usage) :
    (readTestMme sndrcv timeoutMs numFragments s parameters).outcome = Leave.usage.verdict :=
  outcome_readTestMme sndrcv timeoutMs numFragments s h

/-- How many arguments a function uses, those left out that are optional. -/
def MmeFct.uses : MmeFct → Nat
  | .cmSetKeyReq => 11
  | .cmAmpMapReq => 3
  | .mtkVsGetTonemaskReq => 2
  | .mtkVsGetTonemapReq => 6
  | .mtkVsGetSnrReq => 4
  | .mtkVsGetLinkStatsReq => 7
  | .mtkVsSetCaptureStateReq => 5
  | .mtkVsSetNvramReq => 3
  | .mtkVsSetPwmConfReq => 10
  | .mtkVsPwmGenerationReq => 4
  | .mtkVsGetNvramReq | .mtkVsEthStatsReq | .mtkVsSpiStatsReq | .mtkVsSetTxCaliReq | .vcVsSetSnifferConfReq
  | .vcVsSetRemoteAccessReq => 2
  | .mtkVsGetVersionReq | .mtkVsResetReq | .mtkVsGetEthPhyReq | .mtkVsGetStatusReq | .mtkVsGetNwInfoReq
  | .mtkVsGetPwmStatsReq | .mtkVsGetPwmConfReq | .vcVsGetRemoteAccessReq => 0

/-- No argument that is missing is read, and with too few the usage code is returned. -/
structure MmeFct.ReadsGiven (fct : MmeFct) (argv : List CString) : Prop where
  reads : ∀ s fs, (fct.reader s fs argv).All (Given argv)
  usage : argv.length < fct.uses → ∀ s fs, (fct.reader s fs argv).outcome = Leave.usage.verdict

/-- Two functions count one argument less than they use. -/
def MmeFct.GivenEnough (fct : MmeFct) (argv : List CString) : Prop :=
  match fct with
  | .mtkVsGetTonemaskReq => argv.length = 1 → NoStation argv
  | .cmAmpMapReq => argv.length = 2 → NoStation argv
  | _ => True

/-! ## Where the counts agree with the uses -/

/-- A function that counts the arguments it uses. -/
theorem readsGiven_of_count {fct : MmeFct} (hreads : ∀ s fs, (fct.reader s fs argv).All (Given argv))
    (husage : argv.length < fct.uses → ∀ s fs, (fct.reader s fs argv).outcome = Leave.usage.verdict) :
    fct.ReadsGiven argv ↔ True :=
  iff_true_intro ⟨hreads, husage⟩

/-- With one argument that is an address the peer's is read behind the end. -/
theorem tonemask_readsGiven_iff :
    MmeFct.ReadsGiven .mtkVsGetTonemaskReq argv ↔ (argv.length = 1 → NoStation argv) := by
  constructor
  · intro h hone
    by_contra hstation
    -- the second argument is read all the same
    obtain ⟨-, mac, hdest⟩ := station_ok hstation
    have hcount : (countAtLeast argv 1).outcome = .ok () := atLeast_ok.mpr hone.ge
    have hmem : (1 : Int) ∈ (readGetTonemask openSetting noFiles argv).log := by
      unfold readGetTonemask readTestMme
      simp only
      rw [bind_of_ok hcount, bind_of_ok hdest]
      exact List.mem_append_right _ (List.mem_append_right _ (mem_log_bind (mem_log_bind List.mem_cons_self _) _))
    have hgiven := (h.reads openSetting noFiles 1 hmem).2
    rw [hone] at hgiven
    omega
  · intro h
    refine ⟨fun s fs => readGetTonemask_given s fs h, ?_⟩
    intro hfew s fs
    apply readTestMme_usage
    by_cases hone : argv.length = 1
    · have hcount : (countAtLeast argv 1).outcome = .ok () := atLeast_ok.mpr hone.ge
      rw [outcome_bind_of_ok hcount]
      exact outcome_bind_of_error (noStation_usage (by omega) (h hone)) _
    · have huses : argv.length < 2 := hfew
      exact count_usage (by omega) _

/-- With two arguments, the first an address, the file's name is read behind the end. -/
theorem ampMap_readsGiven_iff :
    MmeFct.ReadsGiven .cmAmpMapReq argv ↔ (argv.length = 2 → NoStation argv) := by
  have hleave : (readAmpMapParameters argv).outcome = .error .usage →
      ∀ s fs, (readAmpMap s fs argv).outcome = Leave.usage.verdict := by
    intro hparameters s fs
    unfold readAmpMap
    simp only [hparameters]
  constructor
  · intro h htwo
    by_contra hstation
    obtain ⟨-, mac, hdest⟩ := station_ok hstation
    have hcount : (countAtLeast argv 2).outcome = .ok () := atLeast_ok.mpr htwo.ge
    obtain ⟨amlen, hamlen⟩ : ∃ amlen, (readNumber argv 1).outcome = .ok amlen := by
      have hsecond := List.getElem?_eq_getElem (by omega : 1 < argv.length)
      exact ⟨_, (outcome_readNumber argv 1).trans (number_ok.mpr ⟨_, hsecond, rfl⟩)⟩
    have hparameters : (readAmpMapParameters argv).outcome = .ok (mac, amlen) := by
      unfold readAmpMapParameters
      rw [outcome_bind_of_ok hcount, outcome_bind_of_ok hdest, outcome_bind_of_ok hamlen]
      rfl
    -- it is turned down without its usage, for the length or for the file that is missing
    have husage := h.usage (by rw [htwo]; decide) openSetting noFiles
    have hreader : (readAmpMap openSetting noFiles argv).outcome = Leave.usage.verdict := husage
    unfold readAmpMap at hreader
    simp only [hparameters] at hreader
    by_cases hrange : amlen > 3528 ∨ amlen < 0
    · rw [if_pos hrange] at hreader
      injection hreader with hverdict
      injection hverdict with hrv
      exact absurd hrv (by decide)
    · rw [if_neg hrange] at hreader
      simp only [if_pos htwo.le] at hreader
      injection hreader with hverdict
      injection hverdict with hrv
      exact absurd hrv (by decide)
  · intro h
    refine ⟨fun s fs => readAmpMap_given s fs h, ?_⟩
    intro hfew s fs
    apply hleave
    by_cases htwo : argv.length = 2
    · have hcount : (countAtLeast argv 2).outcome = .ok () := atLeast_ok.mpr htwo.ge
      unfold readAmpMapParameters
      rw [outcome_bind_of_ok hcount]
      exact outcome_bind_of_error (noStation_usage (by omega) (h htwo)) _
    · have huses : argv.length < 3 := hfew
      exact count_usage (by omega) _

/-- Which arguments a function reads is decided by their number and the first of them. -/
theorem MmeFct.reads_iff (fct : MmeFct) : fct.ReadsGiven argv ↔ fct.GivenEnough argv := by
  cases fct with
  | cmSetKeyReq =>
    apply readsGiven_of_count (fun s fs => readSetKey_given s fs)
    intro hfew s fs
    have hread : (readSetKeyPassword s argv).outcome = .error .usage :=
      outcome_bind_of_error (count_usage hfew _) _
    show (readSetKey s fs argv).outcome = _
    unfold readSetKey
    simp only [hread]
  | cmAmpMapReq => exact ampMap_readsGiven_iff
  | mtkVsGetTonemaskReq => exact tonemask_readsGiven_iff
  | mtkVsGetTonemapReq =>
    exact readsGiven_of_count (fun s fs => readGetTonemap_given s fs)
      fun hfew s fs => readTestMme_usage _ _ _ s (count_usage hfew _)
  | mtkVsGetSnrReq =>
    exact readsGiven_of_count (fun s fs => readGetSnr_given s fs)
      fun hfew s fs => readTestMme_usage _ _ _ s (count_usage hfew _)
  | mtkVsGetLinkStatsReq =>
    exact readsGiven_of_count (fun s fs => readGetLinkStats_given s fs)
      fun hfew s fs => readTestMme_usage _ _ _ s (count_usage hfew _)
  | mtkVsSetCaptureStateReq =>
    exact readsGiven_of_count (fun s fs => readSetCaptureState_given s fs)
      fun hfew s fs => readTestMme_usage _ _ _ s (count_usage hfew _)
  | mtkVsSetNvramReq =>
    exact readsGiven_of_count (fun s fs => readSetNvram_given s fs)
      fun hfew s fs => readTestMme_usage _ _ _ s (count_usage hfew _)
  | mtkVsPwmGenerationReq =>
    exact readsGiven_of_count (fun s fs => readPwmGeneration_given s fs)
      fun hfew s fs => readTestMme_usage _ _ _ s (count_usage hfew _)
  | mtkVsSetPwmConfReq =>
    apply readsGiven_of_count (fun s fs => readSetPwmConf_given s fs)
    intro hfew s fs
    have hten : argv.length ≠ 10 := Nat.ne_of_lt hfew
    apply readTestMme_usage
    rw [if_pos hten]
    rfl
  | mtkVsGetNvramReq | mtkVsEthStatsReq | mtkVsSpiStatsReq | mtkVsSetTxCaliReq | vcVsSetSnifferConfReq
  | vcVsSetRemoteAccessReq =>
    exact readsGiven_of_count (fun s fs => readOneNumber_given s fs _)
      fun hfew s fs => readTestMme_usage _ _ _ s (count_usage hfew _)
  | mtkVsGetNwInfoReq =>
    exact readsGiven_of_count (fun s fs => dest_given fun dest => all_pure _) fun hfew => absurd hfew (Nat.not_lt_zero _)
  | mtkVsGetVersionReq | mtkVsResetReq | mtkVsGetEthPhyReq | mtkVsGetStatusReq | mtkVsGetPwmStatsReq | mtkVsGetPwmConfReq
  | vcVsGetRemoteAccessReq =>
    exact readsGiven_of_count (fun s fs => readEmpty_given s fs _ _) fun hfew => absurd hfew (Nat.not_lt_zero _)

end

/-! ## The file access -/

/-- The words that are parsed: those behind an address that is not zero. -/
def accessWords (tmpDestMac : Mac) (argv : List CString) : List CString :=
  if tmpDestMac.bytes ≠ List.replicate 6 0 then argv.drop 1 else argv

/-- `test_mme_mtk_vs_file_access_req` up to its command: the station, the place of the command and
the table. `none` prints the usage; behind it no argument is read. -/
def readFileAccess (table : List CommandEntry) (argv : List CString) :
    Calls Int Fault (Option (Mac × Nat × List CommandEntry)) :=
  if argv.length = 0 then pure none
  else do
    let first ← argumentAt argv 0
    match stomac first with
    | none => pure none
    | some tmpDestMac => do
      let specific := tmpDestMac.bytes ≠ List.replicate 6 0
      let shiftArgc : Int := if specific then 1 else 0
      let parsed ← (parseTable table (accessWords tmpDestMac argv)).relabel fun idx => shiftArgc + idx
      match parsed with
      | some (some cmd, table) => pure (some (if specific then tmpDestMac else broadcast, cmd, table))
      | _ => pure none

/-- No argument that is missing is read, and unless the arguments make up a command the usage is
printed. -/
structure FileAccessReadsGiven (argv : List CString) : Prop where
  reads : ∀ table, (readFileAccess table argv).All (Given argv)
  usage : (∀ a mac, argv[0]? = some a → stomac a = some mac → ¬FirstServes (accessWords mac argv)) →
    ∀ table : List CommandEntry, table.map (·.word) = mtkVsFileAccessCommands →
      (readFileAccess table argv).outcome = .ok none

/-- Behind an address there is a word, and what is copied for nothing fits. -/
def FileAccessGivenEnough (argv : List CString) : Prop :=
  ∀ a mac, argv[0]? = some a → stomac a = some mac → ¬FirstServes (accessWords mac argv) →
    accessWords mac argv ≠ [] ∧ CopiesFit (accessWords mac argv)

section

variable {argv : List CString}

/-- The words of a file access are arguments of the command, one further where the first is an
address. -/
theorem accessWords_given {mac : Mac} (hlt : 0 < argv.length) {idx : Int} (h : Given (accessWords mac argv) idx) :
    Given argv ((if mac.bytes ≠ List.replicate 6 0 then 1 else 0) + idx) := by
  obtain ⟨hle, hidx⟩ := h
  -- with an address the words begin behind it
  unfold accessWords at hidx
  constructor
  · split <;> omega
  · split at hidx
    · rw [List.length_drop] at hidx
      rw [if_pos ‹_›]
      omega
    · rw [if_neg ‹_›]
      omega

/-- The first argument is read where there is one. -/
theorem argumentAt_zero {a : CString} (ha : argv[0]? = some a) : (argumentAt argv 0).outcome = .ok a := by
  unfold argumentAt
  rw [if_neg (lt_irrefl _), Int.toNat_zero, ha]
  rfl

/-- The words of a file access are read as far as they are given. -/
theorem readFileAccess_given (table : List CommandEntry) : (readFileAccess table argv).All (Given argv) := by
  unfold readFileAccess
  split
  · exact all_pure _
  · have hlt : 0 < argv.length := by omega
    apply all_bind (argumentAt_given ⟨le_rfl, by exact_mod_cast hlt⟩)
    intro first _
    split
    · exact all_pure _
    · refine all_bind (all_relabel (parseTable_given table) fun idx h => accessWords_given hlt h) ?_
      intro parsed _
      split
      · exact all_pure _
      · exact all_pure _

/-- A first argument that is no address is not followed by another read. -/
theorem readFileAccess_noStation {table : List CommandEntry} {a : CString} (ha : argv[0]? = some a)
    (hnone : stomac a = none) : (readFileAccess table argv).outcome = .ok none := by
  obtain ⟨hlt, -⟩ := List.getElem?_eq_some_iff.mp ha
  unfold readFileAccess
  rw [if_neg (by omega), outcome_bind_of_ok (argumentAt_zero ha)]
  simp only [hnone]
  rfl

/-- What is parsed decides on the command. -/
theorem outcome_readFileAccess {table : List CommandEntry} {a : CString} {mac : Mac} (ha : argv[0]? = some a)
    (hmac : stomac a = some mac) :
    (readFileAccess table argv).outcome = (parseTable table (accessWords mac argv)).outcome >>= fun
      | some (some cmd, table) =>
        .ok (some (if mac.bytes ≠ List.replicate 6 0 then mac else broadcast, cmd, table))
      | _ => .ok none := by
  obtain ⟨hlt, -⟩ := List.getElem?_eq_some_iff.mp ha
  unfold readFileAccess
  rw [if_neg (by omega), outcome_bind_of_ok (argumentAt_zero ha)]
  simp only [hmac, outcome_bind]
  congr 1
  funext parsed
  match parsed with
  | none => rfl
  | some (none, _) => rfl
  | some (some cmd, table) => rfl

/-- The part of the function behind its arguments. -/
def accessStations {σ : Type} (h : FileHost σ) (fs : LocalFs) (env : σ) (dest : Mac) (cmd : FileAccessCommand)
    (all : Bool) : Except Fault (Option (CommandEnd σ)) := do
  match ← if all then stationList fs else .ok (some [dest]) with
  | none => .ok (some (.usage fs env))
  | some macList => accessFiles h cmd macList fs env

/-- What a read entry of the table stands for. -/
def CommandEntry.access (entry : CommandEntry) : FileAccessCommand :=
  ⟨entry.word.op, entry.word.fileType, entry.parameter, entry.fileName⟩

/-- With an address the command is the parser, and then the access at the station named. -/
theorem testMmeMtkVsFileAccessReq_words {σ : Type} (h : FileHost σ) (fs : LocalFs) (env : σ) {a : CString} {mac : Mac}
    (ha : argv[0]? = some a) (hmac : stomac a = some mac) : testMmeMtkVsFileAccessReq h argv fs env =
      parseMtkVsFileAccess (accessWords mac argv) >>= fun parsed =>
        match parsed with
        | none => .ok (some (.usage fs env))
        | some (cmd, all) =>
          accessStations h fs env (if mac.bytes ≠ List.replicate 6 0 then mac else broadcast) cmd all := by
  cases argv with
  | nil => cases ha
  | cons first rest =>
    obtain rfl : first = a := Option.some.inj ha
    unfold testMmeMtkVsFileAccessReq
    simp only [hmac]
    rfl

/-- With its reads recorded the function is the same, for a table that no call has touched yet. -/
theorem testMmeMtkVsFileAccessReq_read {σ : Type} (h : FileHost σ) (argv : List CString) (fs : LocalFs) (env : σ) :
    match (readFileAccess initialTable argv).outcome with
    | .error fault => testMmeMtkVsFileAccessReq h argv fs env = .error fault
    | .ok none => testMmeMtkVsFileAccessReq h argv fs env = .ok (some (.usage fs env))
    | .ok (some (dest, cmd, table)) => ∃ entry, table[cmd]? = some entry ∧
        testMmeMtkVsFileAccessReq h argv fs env = accessStations h fs env dest entry.access entry.allFlag := by
  cases ha : argv[0]? with
  | none =>
    obtain rfl : argv = [] := List.eq_nil_of_length_eq_zero (Nat.le_zero.mp (List.getElem?_eq_none_iff.mp ha))
    rfl
  | some a =>
    cases hmac : stomac a with
    | none =>
      rw [readFileAccess_noStation ha hmac]
      cases argv with
      | nil => cases ha
      | cons first rest =>
        obtain rfl : first = a := Option.some.inj ha
        unfold testMmeMtkVsFileAccessReq
        simp only [hmac]
    | some mac =>
      rw [testMmeMtkVsFileAccessReq_words h fs env ha hmac, outcome_readFileAccess ha hmac]
      by_cases hne : accessWords mac argv = []
      · rw [hne, parseTable_nil]
        rfl
      · rw [parseMtkVsFileAccess_eq hne]
        have hwords : initialTable.map (·.word) = mtkVsFileAccessCommands := rfl
        rcases parseTable_spec hwords hne with ⟨fault, hfound, hcall⟩ | ⟨found, ended, hfound, hcall, hends⟩
        · rw [hfound, hcall]
          rfl
        · rw [hfound, hcall]
          cases found with
          | none =>
            obtain ⟨returned, table'⟩ := ended
            obtain ⟨rfl, -⟩ : returned = none ∧ _ := hends
            rfl
          | some r =>
            obtain ⟨k, entry, hentry, hcommand, hk, hfilled, -⟩ := hends
            obtain ⟨returned, table'⟩ := ended
            obtain rfl : returned = some k := hk
            refine ⟨_, hfilled, ?_⟩
            -- no flag of the table is set yet
            have hflag : entry.allFlag = false := by
              obtain ⟨word, -, rfl⟩ := List.mem_map.mp (List.mem_of_getElem? hentry)
              rfl
            rw [hflag, Bool.false_or]
            rfl

/-- A file access reads given arguments only exactly when it is given enough of them. -/
theorem fileAccess_readsGiven_iff : FileAccessReadsGiven argv ↔ FileAccessGivenEnough argv := by
  constructor
  · intro h a mac ha hmac hserves
    have hwords : initialTable.map (·.word) = mtkVsFileAccessCommands := rfl
    have husage := h.usage (fun b mac' hb hmac' => by
      obtain rfl := Option.some.inj (ha.symm.trans hb)
      obtain rfl := Option.some.inj (hmac.symm.trans hmac')
      exact hserves) initialTable hwords
    rw [outcome_readFileAccess ha hmac, bind_eq_ok] at husage
    obtain ⟨parsed, hparsed, -⟩ := husage
    exact copiesFit_of_parseTable hwords hparsed
  · intro h
    refine ⟨readFileAccess_given, ?_⟩
    intro hserves table hwords
    cases ha : argv[0]? with
    | none =>
      have hlength := List.getElem?_eq_none_iff.mp ha
      unfold readFileAccess
      rw [if_pos (by omega)]
      rfl
    | some a =>
      cases hmac : stomac a with
      | none => exact readFileAccess_noStation ha hmac
      | some mac =>
        have hnot := hserves a mac ha hmac
        obtain ⟨hne, hfits⟩ := h a mac ha hmac hnot
        obtain ⟨found, ended, hcall, hends, -, hsome⟩ := parseTable_cases hwords hne hfits
        rw [outcome_readFileAccess ha hmac, hcall]
        cases found with
        | none =>
          obtain ⟨returned, table'⟩ := ended
          obtain ⟨rfl, -⟩ : returned = none ∧ _ := hends
          rfl
        | some r => exact absurd (hsome r rfl).1 hnot

end

/-! ## The whole table -/

/-- For a function of the table: no argument that is missing is read, and the usage code is
returned for too few. -/
def ChannelFct.ReadsGiven (fct : ChannelFct) (argv : List CString) : Prop :=
  match fct with
  | .mme fct => fct.ReadsGiven argv
  | .fileAccess => FileAccessReadsGiven argv
  -- not in the table
  | _ => True

/-- What is asked of the arguments, by function. -/
def ChannelFct.GivenEnough (fct : ChannelFct) (argv : List CString) : Prop :=
  match fct with
  | .mme fct => fct.GivenEnough argv
  | .fileAccess => FileAccessGivenEnough argv
  | _ => True

/-- No command of the table reads a missing argument, or prints nothing for too few, but the two that
count one argument less than they read, and the file access that is given a station and no command. -/
theorem readsGiven_iff {name : CString} {fct : ChannelFct} (h : (name, fct) ∈ testMmeFctNameTable)
    (argv : List CString) : fct.ReadsGiven argv ↔ fct.GivenEnough argv := by
  cases fct with
  | mme fct => exact fct.reads_iff
  | fileAccess => exact fileAccess_readsGiven_iff
  | nvramRead | nvramWrite | confFileRead | confFileWrite => exact Iff.rfl

/-- A tone mask of one station: the second address is missing. -/
theorem readsGiven_tonemask : ¬ChannelFct.ReadsGiven (.mme .mtkVsGetTonemaskReq) [text "00:13:d7:00:00:01"] := by
  have hmem : (text "mtk_vs_get_tonemask_req", ChannelFct.mme .mtkVsGetTonemaskReq) ∈ testMmeFctNameTable := by
    unfold testMmeFctNameTable
    simp
  rw [readsGiven_iff hmem]
  intro h
  exact absurd (h rfl _ rfl) (by decide)

/-- One address and the length of a map: the file is missing. -/
theorem ampMap_not_readsGiven : ¬ ∀ name fct, (name, fct) ∈ testMmeFctNameTable →
    ∀ argv, ChannelFct.ReadsGiven fct argv := by
  intro h
  have hmem : (text "cm_amp_map_req", ChannelFct.mme .cmAmpMapReq) ∈ testMmeFctNameTable := by
    unfold testMmeFctNameTable
    simp
  have hreads : MmeFct.ReadsGiven .cmAmpMapReq [text "00:13:d7:00:00:01", text "2"] := h _ _ hmem _
  exact absurd (ampMap_readsGiven_iff.mp hreads rfl _ rfl) (by decide)

end Hpav
