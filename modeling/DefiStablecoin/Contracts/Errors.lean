import DefiStablecoin.Solidity.Word

/-!
# What a call can revert with

The custom errors of `DSCEngine`, `DecentralizedStableCoin` and `OracleLib`,
beside the failures of the language.
-/

namespace DefiStablecoin

open Solidity

inductive Revert where
  | DSCEngine__Need_MoreThan_zero
  | DSCEngine__TokenAddresses_And_PriceFeedAddresses_MustBe_Same_Length
  | DSCEngine__Not_Allowed_Token
  | DSCEngine__Transfer_Failed
  | DSCEngine__Breaks_Health_Factor (healthFactor : UInt256)
  | DSCEngine__Mint_Failed
  | DSCEngine__Health_Factor_OK
  | DSCEngine__Health_Factor_Not_Improved
  | DecentralizedStableCoin__Amount_MustBe_MoreThan_Zero
  | DecentralizedStableCoin__Burn_Amount_Exceeeds_Balance
  | DecentralizedStableCoin__Mint_Must_NotBe_Zero_Address
  | OracleLib__StalePrice
  | panic (code : Nat)
  | error (reason : String)
  | noCode
deriving DecidableEq, Repr

instance : SolidityError Revert where
  panic := .panic
  error := .error
  noCode := .noCode

end DefiStablecoin
