import Segmentation.Catalog.Validation

/-!
# The stock catalog

Value types for text, numbers, truth values and dates, and the fields of a visitor, a session and a
referrer.
-/

namespace Segmentation.Stock

/-- A slot without choices. -/
def slot (name : String) (kind : Kind) : Slot :=
  { name, kind }

/-- An operation with one slot named `value`. -/
def unary (kind : Kind) (key name : String) : Operation :=
  { key, name, slots := [slot "value" kind] }

/-- Text. -/
def text : ValueType where
  key := "string"
  name := "Text"
  operations := [
    unary .string "equals" "Is",
    unary .string "not_equals" "Is Not",
    unary .string "contains" "Contains",
    unary .string "starts_with" "Starts With",
    unary .string "ends_with" "Ends With",
    { key := "blank", name := "Is Blank" }]

/-- Whole numbers. -/
def number : ValueType where
  key := "integer"
  name := "Number"
  operations := [
    unary .integer "equals" "Is",
    unary .integer "greater_than" "Greater Than",
    unary .integer "less_than" "Less Than",
    { key := "between", name := "Between", slots := [slot "min" .integer, slot "max" .integer] }]

/-- Floating-point numbers. -/
def decimal : ValueType where
  key := "float"
  name := "Decimal"
  operations := [
    unary .float "greater_than" "Greater Than",
    unary .float "less_than" "Less Than",
    { key := "between", name := "Between", slots := [slot "min" .float, slot "max" .float] }]

/-- Truth values, chosen as yes or no. -/
def yesNo : ValueType where
  key := "boolean"
  name := "Yes/No"
  operations := [
    { key := "is"
      name := "Is"
      slots := [
        { name := "value"
          kind := .boolean
          choices := [⟨"Yes", "true"⟩, ⟨"No", "false"⟩] }] }]

/-- Dates. -/
def date : ValueType where
  key := "date"
  name := "Date"
  operations := [
    { key := "before", name := "Before", slots := [slot "date" .date] },
    { key := "after", name := "After", slots := [slot "date" .date] },
    { key := "between", name := "Between", slots := [slot "from" .date, slot "to" .date] },
    { key := "within_last"
      name := "Within The Last"
      slots := [
        slot "amount" .integer,
        { name := "unit"
          kind := .string
          choices := [⟨"Days", "days"⟩, ⟨"Weeks", "weeks"⟩, ⟨"Months", "months"⟩] }] }]

/-- Who visits. -/
def visitor : Handler where
  key := "visitor"
  name := "Visitor"
  fields := [
    ⟨"country", "Country", "string"⟩,
    ⟨"region", "Region", "string"⟩,
    ⟨"city", "City", "string"⟩,
    ⟨"language", "Language", "string"⟩,
    ⟨"first_seen", "First Seen", "date"⟩,
    ⟨"visits", "Visit Count", "integer"⟩,
    ⟨"returning", "Returning Visitor", "boolean"⟩]

/-- What happens during a visit. -/
def session : Handler where
  key := "session"
  name := "Session"
  fields := [
    ⟨"browser", "Browser", "string"⟩,
    ⟨"platform", "Operating System", "string"⟩,
    ⟨"device", "Device", "string"⟩,
    ⟨"landing_page", "Landing Page", "string"⟩,
    ⟨"page_views", "Page Views", "integer"⟩,
    ⟨"duration", "Duration (minutes)", "float"⟩,
    ⟨"started_at", "Session Start", "date"⟩]

/-- Where a visitor comes from. -/
def referrer : Handler where
  key := "referrer"
  name := "Referrer"
  fields := [
    ⟨"referrer_host", "Referring Host", "string"⟩,
    ⟨"campaign", "Campaign", "string"⟩,
    ⟨"medium", "Medium", "string"⟩,
    ⟨"search_terms", "Search Terms", "string"⟩]

/-- All of it, to be extended or checked. -/
def draft : Draft where
  valueTypes := [text, number, decimal, yesNo, date]
  handlers := [visitor, session, referrer]

/-- The stock catalog has no fault. -/
theorem fault?_draft : draft.fault? = none := by
  decide +kernel

/-- The stock catalog. -/
def catalog : Catalog :=
  ⟨draft, Draft.fault?_eq_none_iff.1 fault?_draft⟩

end Segmentation.Stock
