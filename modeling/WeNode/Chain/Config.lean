/-!
# Configuration

The constants of libraries/protocol/include/node/protocol/config.hpp for the live network, and
of libraries/chain/hardfork.d, that the modelled functions read.
-/

namespace WeNode.Chain

/- The bytes of a name, first byte most significant, as the 128-bit number that `fixed_string_16`
stores. -/
def fixedString (bytes : List Nat) : Nat :=
  (bytes ++ List.replicate (16 - bytes.length) 0).foldl (fun n b => n * 256 + b) 0

def genesisTime : Nat := 1548124950
def initSupply : Int := 1000000000
def genesisAccountSCORE : Int := 1
def numberOfGenesisWitnessAccounts : Nat := 50
def numberOfExtraGenesisAccounts : Nat := 50

def blockInterval : Nat := 1
def blocksPerYear : Nat := 31536000
def blocksPerDay : Nat := 86400
def startTMEfundForSCOREblock : Nat := blocksPerDay
def startMinerVotingBlock : Nat := blocksPerDay

def maxWitnesses : Nat := 50
def maxVotedWitnessesHF0 : Nat := 48
def maxMinerWitnessesHF0 : Nat := 1
def maxRunnerWitnessesHF0 : Nat := 1
def maxVotedWitnessesHF17 : Nat := 49
def maxMinerWitnessesHF17 : Nat := 0
def maxRunnerWitnessesHF17 : Nat := 1
def hardforkRequiredWitnesses : Nat := 32

def maxTimeUntilExpiration : Nat := 3600
def maxMemoSize : Nat := 2048
def maxProxyRecursionDepth : Nat := 4
def withdrawIntervalsPreHF16 : Int := 104
def withdrawIntervals : Int := 4
def scoreWithdrawIntervalSeconds : Nat := 604800
def maxWithdrawRoutes : Nat := 10
def savingsWithdrawTime : Nat := 259200
def savingsWithdrawRequestLimit : Nat := 100
def voteRegenerationSeconds : Nat := 259200
def maxVoteChanges : Int := 127
def reverseAuctionWindowSeconds : Nat := 600
def minVoteIntervalSec : Int := 1
def voteDustThreshold : Int := 0

def cashoutWindowSecondsPreHF12 : Nat := 86400
def cashoutWindowSecondsPreHF17 : Nat := 43200
def cashoutWindowSeconds : Nat := 604800
def secondCashoutWindow : Nat := 2592000
def maxCashoutWindowSeconds : Nat := 1209600
def upvoteLockoutHF7 : Int := 60
def upvoteLockoutHF17 : Int := 43200

def minAccountCreationFee : Int := 1000
def ownerAuthRecoveryPeriod : Nat := 2592000
def accountRecoveryRequestExpirationPeriod : Nat := 86400
def ownerUpdateLimit : Int := 3600
def ownerAuthHistoryTrackingStartBlockNum : Nat := 1

def minRootCommentInterval : Int := 3
def minReplyInterval : Int := 2
def postAverageWindow : Nat := 86400
def postMaxBandwidth : Nat := 40000
def postWeightConstant : Nat := postMaxBandwidth * postMaxBandwidth
def maxAccountWitnessVotes : Nat := 1000
def maxWitnessUrlLength : Nat := 2048
def maxPermlinkLength : Nat := 2048
def minPermlinkLength : Nat := 0
def maxCommentDepthPreHF17 : Nat := 6
def maxCommentDepth : Nat := 65535

def percent100 : Nat := 10000
def percent1 : Nat := 100
def defaultTSDinterestRate : Nat := 1000

def inflationRateStartPercent : Int := 1000
def inflationRateStopPercent : Int := 100
def inflationNarrowingPeriod : Nat := 250000
def contentRewardPercent : Int := 7500
def scoreFundPercent : Int := 1500

def createAccountDelegationRatio : Int := 2
def createAccountDelegationTime : Nat := 86400

/- `MINING_REWARD`, and the least content, curation, producer and work reward -/
def miningReward : Int := 10000000
def minLiquidityReward : Int := 3600000
def liquidityTimeoutSec : Int := 604800
def minLiquidityRewardPeriodSec : Int := 60
def minLiquidityRewardPeriodSecHF10 : Int := 1800
def liquidityRewardBlocks : Nat := 3600
def activeChallengeFee : Int := 2000
def ownerChallengeFee : Int := 30000
def activeChallengeCooldown : Int := 86400
def ownerChallengeCooldown : Int := 86400

def recentRSCOREdecayRateHF17 : Nat := 2592000
def recentRSCOREdecayRateHF19 : Nat := 1296000
def contentConstantHF0 : Nat := 2000000000000

def aprPercentMultiplyPerBlock : Nat := 0x5ccce802de5f
def aprPercentShiftPerBlock : Nat := 87
def aprPercentMultiplyPerRound : Nat := 0x79ccf5c73480
def aprPercentShiftPerRound : Nat := 83
def aprPercentMultiplyPerHour : Nat := 0x6cc139a15cbd
def aprPercentShiftPerHour : Nat := 77
def curateAprPercent : Nat := 3875
def contentAprPercent : Nat := 3875
def liquidityAprPercent : Nat := 750
def producerAprPercent : Nat := 750
def powAprPercent : Nat := 750

def minPayoutTSD : Int := 20
def tsdStopPercent : Nat := 200
def tsdStartPercent : Nat := 100
def maxSCOREsupply : Int := 1000000000000000000
def secondsPerYear : Nat := 31536000
def tsdInterestCompoundIntervalSec : Int := 2592000
def minBlockSizeLimit : Nat := 65536
def maxBlockSize : Nat := 393216000
def feedIntervalBlocks : Nat := 3600
def feedHistoryWindowPreHF16 : Nat := 168
def feedHistoryWindow : Nat := 84
def maxFeedAgeSeconds : Nat := 2592000
def minFeeds : Nat := 12
def conversionDelayPreHF16 : Nat := 604800
def conversionDelay : Nat := 302400
def maxUndoHistory : Nat := 10000
def irreversibleThreshold : Nat := 7500
def virtualScheduleLapLength : Nat := 0xffffffffffffffff
def virtualScheduleLapLength2 : Nat := 0xffffffffffffffffffffffffffffffff

/-! ### Reserved accounts -/

/- "builders" -/
def minerAccount : Nat := fixedString [98, 117, 105, 108, 100, 101, 114, 115]

/- "null" -/
def nullAccount : Nat := fixedString [110, 117, 108, 108]

/- "temp" -/
def tempAccount : Nat := fixedString [116, 101, 109, 112]

def proxyToSelfAccount : Nat := 0
def rootPostParent : Nat := 0

/- "webuilder" -/
def genesisAccountBasename : List Nat := [119, 101, 98, 117, 105, 108, 100, 101, 114]

/- `INIT_PUBLIC_KEY`: the bytes of the compressed key -/
def initPublicKey : Nat := 0x03890b812e357fb30ac04bcaf41b4dcff015ec7e6a570d7232cb9bf05305fb7768

/- "WeYouMe" -/
def weYouMe : Nat := fixedString [87, 101, 89, 111, 117, 77, 101]

/- "post" -/
def postRewardFundName : Nat := fixedString [112, 111, 115, 116]

/-- `get_shared_db_merkle`: the blocks whose merkle root or authorities did not match -/
def sharedDbMerkle : List (Nat × Nat) :=
  [(3705111, 0x0a8f0fd5450c3706ec8b8cbad795cd0b3679bf35),
    (3705120, 0x2027edb72b671f7011c8cc4c7a8b59c39b305093),
    (3713940, 0xbf8a1d516927c506ebdbb7b38bef2e992435435f),
    (3714132, 0xe8b77773d268b72c8d650337b8cce360bbe64779),
    (3714567, 0x45af59a8c2d7d4a606151ef5dae03d2dfe13fbdd),
    (3714588, 0xe64275443bdc82f104ac936486d367af8f6d1584),
    (4138790, 0xf65a3a788a2ef52406d8ba5705d7288be228403f),
    (5435426, 0x0b32538b2d22bd3146d54b6e3cb5ae8b9780e8a5)]

/-! ### Hardforks -/

def numHardforks : Nat := 19

/- `HARDFORK_0_n_TIME` -/
def hardforkTime : Nat → Nat
  | 0 => genesisTime
  | 1 => 1531629410
  | 2 => 1531629420
  | 3 => 1531629430
  | 4 => 1531629440
  | 5 => 1531629450
  | 6 => 1531629460
  | 7 => 1531629470
  | 8 => 1531629480
  | 9 => 1531629490
  | n => 1531630000 + 10 * n

/- `hardfork_version( 0, n )`: the number of a version holds its major, hardfork and release
parts. -/
def hardforkVersion (n : Nat) : Nat := n * 65536

/- A version as a `hardfork_version`: without its release. -/
def withoutRelease (version : Nat) : Nat := version / 65536 * 65536

def hardfork06ReverseAuctionTime : Nat := 1
def hf19SqrtPreCalc : Nat := 1531630199 - cashoutWindowSeconds

end WeNode.Chain
