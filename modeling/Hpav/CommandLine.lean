import Mathlib.Tactic.Common
import Hpav.FileCommand

/-!
# The command line

`main.c`: the tables of commands, the channel that most of them open first, and the exit code.
Only the commands that open a channel are run here; `list_if`, `test_secu` and the commands on
local files are left out, and `open_if` exchanges nothing.
-/

namespace Hpav

open CMem CScan CNumeral Decimal

/-! ## The functions that are run on a channel -/

/-- The functions of `test_mme_fct_name_table`. -/
inductive MmeFct where
  | cmSetKeyReq
  | cmAmpMapReq
  | mtkVsGetVersionReq
  | mtkVsResetReq
  | mtkVsGetTonemaskReq
  | mtkVsGetEthPhyReq
  | mtkVsEthStatsReq
  | mtkVsGetStatusReq
  | mtkVsGetTonemapReq
  | mtkVsGetSnrReq
  | mtkVsGetLinkStatsReq
  | mtkVsGetNwInfoReq
  | mtkVsSetCaptureStateReq
  | mtkVsSetNvramReq
  | mtkVsGetNvramReq
  | mtkVsGetPwmStatsReq
  | mtkVsGetPwmConfReq
  | mtkVsSetPwmConfReq
  | mtkVsPwmGenerationReq
  | mtkVsSpiStatsReq
  | mtkVsSetTxCaliReq
  | vcVsSetSnifferConfReq
  | vcVsSetRemoteAccessReq
  | vcVsGetRemoteAccessReq
  deriving DecidableEq

def MmeFct.command : MmeFct → MmeCommand
  | .cmSetKeyReq => testMmeCmSetKeyReq
  | .cmAmpMapReq => testMmeCmAmpMapReq
  | .mtkVsGetVersionReq => testMmeMtkVsGetVersionReq
  | .mtkVsResetReq => testMmeMtkVsResetReq
  | .mtkVsGetTonemaskReq => testMmeMtkVsGetTonemaskReq
  | .mtkVsGetEthPhyReq => testMmeMtkVsGetEthPhyReq
  | .mtkVsEthStatsReq => testMmeMtkVsEthStatsReq
  | .mtkVsGetStatusReq => testMmeMtkVsGetStatusReq
  | .mtkVsGetTonemapReq => testMmeMtkVsGetTonemapReq
  | .mtkVsGetSnrReq => testMmeMtkVsGetSnrReq
  | .mtkVsGetLinkStatsReq => testMmeMtkVsGetLinkStatsReq
  | .mtkVsGetNwInfoReq => testMmeMtkVsGetNwInfoReq
  | .mtkVsSetCaptureStateReq => testMmeMtkVsSetCaptureStateReq
  | .mtkVsSetNvramReq => testMmeMtkVsSetNvramReq
  | .mtkVsGetNvramReq => testMmeMtkVsGetNvramReq
  | .mtkVsGetPwmStatsReq => testMmeMtkVsGetPwmStatsReq
  | .mtkVsGetPwmConfReq => testMmeMtkVsGetPwmConfReq
  | .mtkVsSetPwmConfReq => testMmeMtkVsSetPwmConfReq
  | .mtkVsPwmGenerationReq => testMmeMtkVsPwmGenerationReq
  | .mtkVsSpiStatsReq => testMmeMtkVsSpiStatsReq
  | .mtkVsSetTxCaliReq => testMmeMtkVsSetTxCaliReq
  | .vcVsSetSnifferConfReq => testMmeVcVsSetSnifferConfReq
  | .vcVsSetRemoteAccessReq => testMmeVcVsSetRemoteAccessReq
  | .vcVsGetRemoteAccessReq => testMmeVcVsGetRemoteAccessReq

/-- The functions that `execute_on_channel` is given. -/
inductive ChannelFct where
  | mme (fct : MmeFct)
  | fileAccess
  | nvramRead
  | nvramWrite
  | confFileRead
  | confFileWrite
  deriving DecidableEq

/-- `test_mme_fct_name_table` -/
def testMmeFctNameTable : List (CString × ChannelFct) :=
  [(text "cm_set_key_req", .mme .cmSetKeyReq),
    (text "cm_amp_map_req", .mme .cmAmpMapReq),
    (text "mtk_vs_get_version_req", .mme .mtkVsGetVersionReq),
    (text "mtk_vs_reset_req", .mme .mtkVsResetReq),
    (text "mtk_vs_get_tonemask_req", .mme .mtkVsGetTonemaskReq),
    (text "mtk_vs_get_eth_phy_req", .mme .mtkVsGetEthPhyReq),
    (text "mtk_vs_eth_stats_req", .mme .mtkVsEthStatsReq),
    (text "mtk_vs_get_status_req", .mme .mtkVsGetStatusReq),
    (text "mtk_vs_get_tonemap_req", .mme .mtkVsGetTonemapReq),
    (text "mtk_vs_get_snr_req", .mme .mtkVsGetSnrReq),
    (text "mtk_vs_get_link_stats_req", .mme .mtkVsGetLinkStatsReq),
    (text "mtk_vs_get_nw_info_req", .mme .mtkVsGetNwInfoReq),
    (text "mtk_vs_set_capture_state_req", .mme .mtkVsSetCaptureStateReq),
    (text "mtk_vs_set_nvram_req", .mme .mtkVsSetNvramReq),
    (text "mtk_vs_get_nvram_req", .mme .mtkVsGetNvramReq),
    (text "mtk_vs_get_pwm_stats_req", .mme .mtkVsGetPwmStatsReq),
    (text "mtk_vs_get_pwm_conf_req", .mme .mtkVsGetPwmConfReq),
    (text "mtk_vs_set_pwm_conf_req", .mme .mtkVsSetPwmConfReq),
    (text "mtk_vs_pwm_generation_req", .mme .mtkVsPwmGenerationReq),
    (text "mtk_vs_spi_stats_req", .mme .mtkVsSpiStatsReq),
    (text "mtk_vs_set_tx_cali_req", .mme .mtkVsSetTxCaliReq),
    (text "vc_vs_set_sniffer_conf_req", .mme .vcVsSetSnifferConfReq),
    (text "vc_vs_set_remote_access_req", .mme .vcVsSetRemoteAccessReq),
    (text "vc_vs_get_remote_access_req", .mme .vcVsGetRemoteAccessReq),
    (text "mtk_vs_file_access_req", .fileAccess)]

/-! ## The channel -/

/-- What is used of `struct hpav_if`. -/
structure Interface where
  name : CString
  macAddr : Mac

/-- What a call of `execute_on_channel` finds: the list of interfaces, those that can be opened,
whether `error_stack`, which is not initialized, happens to be NULL, and what is found behind. -/
structure Surroundings where
  interfaces : Option (List Interface)
  opens : Interface → Bool
  errorStackNull : Bool
  setting : Setting

/-- `hpav_get_interface_by_index_or_name` -/
def getInterfaceByIndexOrName (interfaces : List Interface) (arg : CString) : Option Interface :=
  let (negative, _, digits) := takeSign (arg.dropWhile isSpace)
  let ds := digits.takeWhile isDigit
  let endptr := if ds = [] then arg else digits.drop ds.length
  if endptr = [] then interfaces[(UInt32.ofNat (toUnsignedLong negative (value ds))).toNat]?
  else interfaces.find? fun iface => iface.name = arg

/-- How `open_channel` ends: with a channel, or with a value and its reason. -/
inductive Opening where
  | channel (setting : Setting)
  | failed (rv : Int) (met : Met)

/-- An error is put on the stack of errors and the stack is dumped. -/
def dumpErrorStack (around : Surroundings) (opening : Opening) : Except Fault Opening :=
  if around.errorStackNull then .ok opening else .error .uninitialized

/-- `open_channel`. Without any interface it returns 0 and leaves the channel unset. -/
def openChannel (around : Surroundings) (ifNameOrIndex : CString) : Except Fault Opening :=
  match around.interfaces with
  | none => dumpErrorStack around (.failed (-1) .localError)
  | some [] => .error .uninitialized
  | some interfaces =>
    match getInterfaceByIndexOrName interfaces ifNameOrIndex with
    | none => .ok (.failed exitUsage .usageError)
    | some iface =>
      if around.opens iface then .ok (.channel { around.setting with macAddr := iface.macAddr })
      else dumpErrorStack around (.failed exitFailure .localError)

/-- What a run of the program meets: the surroundings at each call of `execute_on_channel`, the
list of interfaces for `find_local_sta`, what answers file accesses, and the temporary files. -/
structure Machine (σ : Type) where
  around : Nat → Surroundings
  listed : Option (List Interface)
  host : FileHost σ
  temp : Option (CString × CString)

section

variable {σ : Type}

/-- A verdict of a function that leaves the environment alone. -/
def Verdict.commandEnd (v : Verdict) (fs : LocalFs) (env : σ) : Option (CommandEnd σ) :=
  some ⟨v.rv, v.log, fs, env⟩

def ChannelFct.run (m : Machine σ) (s : Setting) (argv : List CString) (fs : LocalFs) (env : σ) :
    ChannelFct → Except Fault (Option (CommandEnd σ))
  | .mme fct => do
    let verdict ← fct.command s fs argv
    .ok (verdict.commandEnd fs env)
  | .fileAccess => testMmeMtkVsFileAccessReq m.host argv fs env
  | .nvramRead => do
    let (verdict, fs) ← testNvramRead s fs argv
    .ok (verdict.commandEnd fs env)
  | .nvramWrite => do
    let verdict ← testNvramWrite s fs argv
    .ok (verdict.commandEnd fs env)
  | .confFileRead => confFileReadCommand m.host m.temp argv fs env
  | .confFileWrite => confFileWriteCommand m.host argv fs env

/-- `execute_on_channel`, the `k`-th time. -/
def executeOnChannel (m : Machine σ) (k : Nat) (ifNameOrIndex : CString) (fct : ChannelFct) (argv : List CString)
    (fs : LocalFs) (env : σ) : Except Fault (Option (CommandEnd σ)) := do
  match ← openChannel (m.around k) ifNameOrIndex with
  | .failed rv met => return some ⟨rv, [met], fs, env⟩
  | .channel setting => do
    let last ← fct.run m setting argv fs env
    return last.map fun e => { e with log := .opened :: e.log }

/-! ## The commands -/

/-- The loop over the interfaces. The value is 0 as long as that of every call is. -/
def findLocalStaLoop (m : Machine σ) : Nat → List Interface → Int → LocalFs → σ →
    Except Fault (Option (CommandEnd σ))
  | _, [], rv, fs, env => .ok (some ⟨rv, [], fs, env⟩)
  | k, currentInterface :: next, rv, fs, env => do
    match ← executeOnChannel m k currentInterface.name (.mme .mtkVsGetNwInfoReq) [] fs env with
    | none => return none
    | some result => do
      let rest ← findLocalStaLoop m (k + 1) next (if result.rv ≠ 0 then exitFailure else rv) result.fs result.env
      return rest.map fun e => { e with log := result.log ++ e.log }

/-- `test_find_local_sta` without an interface. -/
def testFindLocalSta (m : Machine σ) (fs : LocalFs) (env : σ) : Except Fault (Option (CommandEnd σ)) :=
  match m.listed with
  | none => .ok (some ⟨exitFailure, [.localError], fs, env⟩)
  | some interfaces => findLocalStaLoop m 0 interfaces exitSuccess fs env

/-- `test_fw_upgrade` with its four arguments. -/
def testFwUpgrade (m : Machine σ) (ifNameOrIndex mac bootloader firmware : CString) (fs : LocalFs) (env : σ) :
    Except Fault (Option (CommandEnd σ)) := do
  match ← executeOnChannel m 0 ifNameOrIndex .fileAccess [mac, text "bootloader", text "input", bootloader]
      fs env with
  | none => return none
  | some result =>
    -- the firmware follows only if the bootloader was written
    if result.rv ≠ 0 then return some result
    else do
      let last ← executeOnChannel m 1 ifNameOrIndex .fileAccess
        [mac, text "simage", firmware, text "input", firmware] result.fs result.env
      return last.map fun e => { e with log := result.log ++ e.log }

/-- A command that opens a channel, or the usage that is printed instead. -/
inductive Job where
  | usage
  | execute (ifNameOrIndex : CString) (fct : ChannelFct) (argv : List CString)
  | findLocalSta
  | fwUpgrade (ifNameOrIndex mac bootloader firmware : CString)

def Job.run (m : Machine σ) (fs : LocalFs) (env : σ) : Job → Except Fault (Option (CommandEnd σ))
  | .usage => .ok (some (.usage fs env))
  | .execute ifNameOrIndex fct argv => executeOnChannel m 0 ifNameOrIndex fct argv fs env
  | .findLocalSta => testFindLocalSta m fs env
  | .fwUpgrade ifNameOrIndex mac bootloader firmware => testFwUpgrade m ifNameOrIndex mac bootloader firmware fs env

end

end Hpav
