/-
The built-in fields and the catalog that holds them.
-/
import EquityScreen.Catalog

namespace EquityScreen
namespace Catalog

/-- Identity fields. -/
def identityFields : List Field := [
  { key := "symbol", label := "Symbol", attr := .symbol, kind := .text,
    aliases := ["ticker"],
    description := "Stock symbol" },
  { key := "name", label := "Name", attr := .name, kind := .text,
    aliases := ["company name", "company_name"],
    description := "Company name" },
  { key := "sector", label := "Sector", attr := .sector, kind := .sector,
    aliases := ["sect"],
    description := "Business sector" },
  { key := "industry", label := "Industry", attr := .industry, kind := .text,
    aliases := ["ind"],
    description := "Industry classification" }]

/-- Price fields. -/
def priceFields : List Field := [
  { key := "price", label := "Price", attr := .price, kind := .currency,
    aliases := ["current price", "current_price", "cmp", "ltp", "share price"],
    description := "Current price" },
  { key := "change", label := "Change", attr := .change, kind := .currency,
    aliases := ["price change", "price_change"],
    description := "Price change" },
  { key := "changePct", label := "Change Pct", attr := .changePct, kind := .percentage,
    aliases := ["change_pct", "pct change", "percent change", "change percent",
      "day change"],
    description := "Price change %" },
  { key := "high52w", label := "52W High", attr := .high52w, kind := .currency,
    aliases := ["52w_high", "yearly high", "52wh"],
    description := "52-week high" },
  { key := "low52w", label := "52W Low", attr := .low52w, kind := .currency,
    aliases := ["52w_low", "yearly low", "52wl"],
    description := "52-week low" }]

/-- Valuation fields. -/
def valuationFields : List Field := [
  { key := "mcap", label := "Mcap", attr := .mcap, kind := .currency,
    aliases := ["market cap", "marketcap", "market_cap", "cap", "market capitalization",
      "m cap"],
    description := "Market capitalization", threshold := some (.int 50000000000) },
  { key := "pe", label := "PE", attr := .pe, kind := .ratio,
    aliases := ["p/e", "pe ratio", "pe_ratio", "price to earnings", "p e"],
    description := "Price to earnings ratio", threshold := some (.decimal 20 0),
    higherIsBetter := some false },
  { key := "pb", label := "PB", attr := .pb, kind := .ratio,
    aliases := ["p/b", "pb ratio", "pb_ratio", "price to book"],
    description := "Price to book ratio", threshold := some (.decimal 3 0),
    higherIsBetter := some false },
  { key := "ps", label := "PS", attr := .ps, kind := .ratio,
    aliases := ["p/s", "ps ratio", "ps_ratio", "price to sales"],
    description := "Price to sales ratio", threshold := some (.decimal 3 0),
    higherIsBetter := some false },
  { key := "eps", label := "EPS", attr := .eps, kind := .currency,
    aliases := ["earnings per share"],
    description := "Earnings per share", threshold := some (.decimal 0 0),
    higherIsBetter := some true },
  { key := "dividendYield", label := "Dividend Yield", attr := .dividendYield, kind := .percentage,
    aliases := ["div yield", "div_yield", "yield", "dy", "dividend", "dividends"],
    description := "Dividend yield", threshold := some (.decimal 2 2),
    higherIsBetter := some true }]

/-- Profitability fields. -/
def profitabilityFields : List Field := [
  { key := "roe", label := "ROE", attr := .roe, kind := .percentage,
    aliases := ["return on equity"],
    description := "Return on equity", threshold := some (.decimal 15 2),
    higherIsBetter := some true },
  { key := "roa", label := "ROA", attr := .roa, kind := .percentage,
    aliases := ["return on assets"],
    description := "Return on assets", threshold := some (.decimal 8 2),
    higherIsBetter := some true },
  { key := "roce", label := "ROCE", attr := .roce, kind := .percentage,
    aliases := ["return on capital", "return on capital employed"],
    description := "Return on capital employed", threshold := some (.decimal 15 2),
    higherIsBetter := some true }]

/-- Health fields. -/
def healthFields : List Field := [
  { key := "debtToEquity", label := "Debt to Equity", attr := .debtToEquity, kind := .ratio,
    aliases := ["d/e", "de", "debt/equity", "debt_to_equity", "debt equity", "debt",
      "leverage"],
    description := "Debt to equity ratio", threshold := some (.decimal 1 0),
    higherIsBetter := some false },
  { key := "currentRatio", label := "Current Ratio", attr := .currentRatio, kind := .ratio,
    aliases := ["current_ratio", "liquidity"],
    description := "Current ratio", threshold := some (.decimal 15 1),
    higherIsBetter := some true }]

/-- Growth fields. -/
def growthFields : List Field := [
  { key := "revenue", label := "Revenue", attr := .revenue, kind := .currency,
    aliases := ["sales", "rev", "turnover"],
    description := "Total revenue" },
  { key := "revenueGrowth", label := "Revenue Growth", attr := .revenueGrowth, kind := .percentage,
    aliases := ["revenue_growth", "sales growth", "rev growth", "topline growth"],
    description := "Revenue growth YoY", threshold := some (.decimal 1 1),
    higherIsBetter := some true },
  { key := "profitGrowth", label := "Profit Growth", attr := .profitGrowth, kind := .percentage,
    aliases := ["profit_growth", "earnings growth", "np growth", "growth",
      "bottomline growth"],
    description := "Profit growth YoY", threshold := some (.decimal 1 1),
    higherIsBetter := some true }]

/-- Volume fields. -/
def volumeFields : List Field := [
  { key := "volume", label := "Volume", attr := .volume, kind := .numeric,
    aliases := ["vol", "today volume", "today_volume"],
    description := "Trading volume", threshold := some (.int 1000000) },
  { key := "avgVolume20d", label := "Avg Volume", attr := .avgVolume20d, kind := .numeric,
    aliases := ["avg_volume", "average volume", "avg vol"],
    description := "20-day average volume", threshold := some (.int 1000000) },
  { key := "volumeChange5d", label := "Volume Change", attr := .volumeChange5d, kind := .percentage,
    aliases := ["volume_change", "vol change", "volume trend"],
    description := "5-day volume change", threshold := some (.decimal 0 0) },
  { key := "deliveryPct", label := "Delivery Pct", attr := .deliveryPct, kind := .percentage,
    aliases := ["delivery", "delivery_pct", "del pct", "delivery percent"],
    description := "Delivery percentage", threshold := some (.decimal 5 1),
    higherIsBetter := some true },
  { key := "deliveryPctAvg", label := "Avg Delivery", attr := .deliveryPctAvg, kind := .percentage,
    aliases := ["delivery avg", "average delivery"],
    description := "Average delivery percentage", threshold := some (.decimal 5 1),
    higherIsBetter := some true }]

/-- Return fields. -/
def returnFields : List Field := [
  { key := "return1d", label := "1D Return", attr := .return1d, kind := .percentage,
    aliases := ["daily return", "today return"],
    description := "1-day return", threshold := some (.decimal 0 0),
    higherIsBetter := some true },
  { key := "return1w", label := "1W Return", attr := .return1w, kind := .percentage,
    aliases := ["weekly return", "week return"],
    description := "1-week return", threshold := some (.decimal 0 0),
    higherIsBetter := some true },
  { key := "return1m", label := "Monthly Return", attr := .return1m, kind := .percentage,
    aliases := ["month return", "1m_return"],
    description := "1-month return", threshold := some (.decimal 0 0),
    higherIsBetter := some true },
  { key := "return3m", label := "Quarterly Return", attr := .return3m, kind := .percentage,
    aliases := ["quarter return", "3m_return"],
    description := "3-month return", threshold := some (.decimal 0 0),
    higherIsBetter := some true },
  { key := "return6m", label := "Half-Year Return", attr := .return6m, kind := .percentage,
    aliases := ["half year return", "6m_return"],
    description := "6-month return", threshold := some (.decimal 0 0),
    higherIsBetter := some true },
  { key := "return1y", label := "1Y Return", attr := .return1y, kind := .percentage,
    aliases := ["yearly return", "annual return", "return", "returns"],
    description := "1-year return", threshold := some (.decimal 15 2),
    higherIsBetter := some true },
  { key := "return3y", label := "3Y Return", attr := .return3y, kind := .percentage,
    aliases := ["3y_return"],
    description := "3-year total return", threshold := some (.decimal 5 1),
    higherIsBetter := some true },
  { key := "cagr3y", label := "3Y CAGR", attr := .cagr3y, kind := .percentage,
    aliases := ["cagr"],
    description := "3-year CAGR", threshold := some (.decimal 12 2),
    higherIsBetter := some true }]

/-- Technical fields. -/
def technicalFields : List Field := [
  { key := "beta", label := "Beta", attr := .beta, kind := .numeric,
    aliases := ["volatility"],
    description := "Beta versus the market", threshold := some (.decimal 1 0),
    higherIsBetter := some false },
  { key := "rsi", label := "RSI", attr := .rsi, kind := .numeric,
    aliases := ["rsi14", "relative strength"],
    description := "RSI (14-day)", threshold := some (.decimal 50 0) }]

/-- The built-in fields, in the order of registration. -/
def builtinFields : List Field :=
  identityFields ++ priceFields ++ valuationFields ++ profitabilityFields ++
    healthFields ++ growthFields ++ volumeFields ++ returnFields ++ technicalFields

/-- The catalog of the built-in fields. -/
def builtin : Catalog := builtinFields.foldl add empty

end Catalog
end EquityScreen
