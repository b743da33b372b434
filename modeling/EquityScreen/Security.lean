/-
Securities. A security has one cell for each attribute; symbol, name, sector and industry are texts
and empty by default, the other attributes are figures and missing by default.
-/
import EquityScreen.Value

namespace EquityScreen

/-- The attributes of a security. -/
inductive Attribute where
  | symbol | name | sector | industry | price | change | changePct | mcap | pe | pb | ps | eps
  | roe | roa | roce | debtToEquity | currentRatio | dividendYield | revenue | revenueGrowth
  | profitGrowth | volume | avgVolume20d | volumeChange5d | high52w | low52w | return1d
  | return1w | return1m | return3m | return6m | return1y | return3y | cagr3y | beta | rsi
  | deliveryPct | deliveryPctAvg
  deriving DecidableEq, Repr

namespace Attribute

/-- The column name that a data provider gives an attribute. -/
def column : Attribute → String
  | .symbol => "symbol"
  | .name => "name"
  | .sector => "sector"
  | .industry => "industry"
  | .price => "price"
  | .change => "change"
  | .changePct => "change_pct"
  | .mcap => "mcap"
  | .pe => "pe"
  | .pb => "pb"
  | .ps => "ps"
  | .eps => "eps"
  | .roe => "roe"
  | .roa => "roa"
  | .roce => "roce"
  | .debtToEquity => "debt_to_equity"
  | .currentRatio => "current_ratio"
  | .dividendYield => "dividend_yield"
  | .revenue => "revenue"
  | .revenueGrowth => "revenue_growth"
  | .profitGrowth => "profit_growth"
  | .volume => "volume"
  | .avgVolume20d => "avg_volume_20d"
  | .volumeChange5d => "volume_change_5d"
  | .high52w => "high_52w"
  | .low52w => "low_52w"
  | .return1d => "return_1d"
  | .return1w => "return_1w"
  | .return1m => "return_1m"
  | .return3m => "return_3m"
  | .return6m => "return_6m"
  | .return1y => "return_1y"
  | .return3y => "return_3y"
  | .cagr3y => "cagr_3y"
  | .beta => "beta"
  | .rsi => "rsi"
  | .deliveryPct => "delivery_pct"
  | .deliveryPctAvg => "delivery_pct_avg"

/-- All attributes, in the order of a record. -/
def all : List Attribute := [
  .symbol, .name, .sector, .industry, .price, .change, .changePct, .mcap, .pe, .pb, .ps, .eps,
  .roe, .roa, .roce, .debtToEquity, .currentRatio, .dividendYield, .revenue, .revenueGrowth,
  .profitGrowth, .volume, .avgVolume20d, .volumeChange5d, .high52w, .low52w, .return1d,
  .return1w, .return1m, .return3m, .return6m, .return1y, .return3y, .cagr3y, .beta, .rsi,
  .deliveryPct, .deliveryPctAvg]

theorem mem_all (a : Attribute) : a ∈ all := by cases a <;> decide

/-- The attribute with a column name. -/
def ofColumn? (s : String) : Option Attribute := all.find? (·.column == s)

/-- Attributes whose cells are texts. -/
def isText : Attribute → Bool
  | .symbol | .name | .sector | .industry => true
  | _ => false

end Attribute

/-- A security record: a value, or nothing, for each attribute. -/
structure Security where
  cell : Attribute → Option Value

namespace Security

/-- The cell of an attribute that nothing was said about. -/
def defaultCell (a : Attribute) : Option Value := if a.isText then some (.text "") else none

/-- The security with the listed cells; of two for one attribute the first counts, and an attribute
that is not listed has its default. -/
def ofCells (cells : List (Attribute × Option Value)) : Security :=
  ⟨fun a => (cells.lookup a).getD (defaultCell a)⟩

/-- The symbol as a text. -/
def symbol (s : Security) : String := ((s.cell .symbol).map Value.written).getD ""

end Security

end EquityScreen
