import Mathlib

/-!
# Chain parameters: `chainparams.h` / `chainparams.cpp`

The fields of `CChainParams` and `Consensus::Params` that the modelled consensus
code reads, with the values `CMainParams`, `CTestNetParams` and `CRegTestParams`
set.  `CRegTestParams` never assigns `nLastPOWBlock`, `nHeightPoSStart` or
`nHeightSupplyCreationStop`, so `regTestParams` takes them as arguments: a result
about regtest holds for every value they may hold.

Heights are `Nat`: every height the code computes is a block's, `nHeight ≥ 0`.
-/

namespace Veil

/-- `strNetworkID`. -/
inductive Network where
  | main
  | test
  | regtest
  deriving DecidableEq, Repr

/-- The difficulty parameters of `Consensus::Params`. -/
structure ConsensusParams where
  /-- `powLimit`, as the number the `uint256` holds. -/
  powLimit : Nat
  nPowTargetSpacing : Nat
  nDgwPastBlocks : Nat
  deriving DecidableEq, Repr

/-- `CChainParams`. -/
structure CChainParams where
  strNetworkID : Network
  consensus : ConsensusParams
  nLastPOWBlock : Nat
  nHeightPoSStart : Nat
  nHeightSupplyCreationStop : Nat
  deriving DecidableEq, Repr

/-- `uint256S("7fff…ff")`, the main and regtest `powLimit`. -/
def powLimitMain : Nat := 2 ^ 255 - 1

/-- `uint256S("0000ffff…ff")`, the testnet `powLimit`. -/
def powLimitTest : Nat := 2 ^ 240 - 1

/-- `CMainParams`. -/
def mainParams : CChainParams where
  strNetworkID := .main
  consensus := { powLimit := powLimitMain, nPowTargetSpacing := 120, nDgwPastBlocks := 30 }
  nLastPOWBlock := 2000000
  nHeightPoSStart := 1500
  nHeightSupplyCreationStop := 9816000

/-- `CTestNetParams`. -/
def testNetParams : CChainParams where
  strNetworkID := .test
  consensus := { powLimit := powLimitTest, nPowTargetSpacing := 120, nDgwPastBlocks := 60 }
  nLastPOWBlock := 2000000
  nHeightPoSStart := 100
  nHeightSupplyCreationStop := 9816000

/-- `CRegTestParams`; the three heights it leaves unset are arguments. -/
def regTestParams (nLastPOWBlock nHeightPoSStart nHeightSupplyCreationStop : Nat) : CChainParams where
  strNetworkID := .regtest
  consensus := { powLimit := powLimitMain, nPowTargetSpacing := 120, nDgwPastBlocks := 60 }
  nLastPOWBlock := nLastPOWBlock
  nHeightPoSStart := nHeightPoSStart
  nHeightSupplyCreationStop := nHeightSupplyCreationStop

/-- `LAST_POW_BLOCK`. -/
def CChainParams.LAST_POW_BLOCK (params : CChainParams) : Nat := params.nLastPOWBlock

end Veil
