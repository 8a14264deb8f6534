import Quantoxide.Model.Numeric
import Quantoxide.Model.Time

/-! # Stored rows

A candle has finite prices and an `i64` volume, whose addition wraps as it does in a
release build. -/

namespace Quantoxide

structure OhlcCandleRow where
  time : ℤ
  openPrice : F64
  high : F64
  low : F64
  close : F64
  volume : Int64
  createdAt : ℤ
  updatedAt : ℤ
  stable : Bool
deriving DecidableEq

/-- A stored minute: it opens on a round minute from the epoch on, and its instants lie
within the range of `chrono`. -/
structure OhlcCandleRow.IsMinute (c : OhlcCandleRow) : Prop where
  round : DateTime.isRoundMinute c.time = true
  epoch_le : 0 ≤ c.time
  time_le : c.time ≤ DateTime.maxUtc
  created_le : c.createdAt ≤ DateTime.maxUtc
  le_updated : DateTime.minUtc ≤ c.updatedAt

structure FundingSettlementRow where
  time : ℤ
  fixingPrice : F64
  fundingRate : F64
deriving DecidableEq

end Quantoxide
