import RetentionJobs.Text.Blank
import RetentionJobs.Text.Decimal
/-! A crontab counts weekdays from 0 to 7 with Sunday at both ends; the grammar counts them from 1
to 7 with Sunday first. A weekday field is renumbered from the first count to the second. -/
namespace RetentionJobs.Cron.Weekday
open RetentionJobs.Text

/-- One day. Text that is no day number is kept. -/
def renumberDay (day : List Char) : List Char :=
  match readUnsigned? day with
  | none => day
  | some n =>
    if n = 0 ∨ n = 7 then ['1']
    else if n ≤ 6 then digits (n + 1)
    else day

/-- A range of days. One that ends on day 7 runs to Saturday and takes Sunday besides. -/
def renumberRange (first last : List Char) : List Char :=
  if last = ['7'] then
    if renumberDay first = ['1'] then ['1', '-', '7']
    else renumberDay first ++ ['-', '7', ',', '1']
  else renumberDay first ++ '-' :: renumberDay last

def renumberDays (days : List Char) : List Char :=
  match splitFirst '-' days with
  | (day, none) => renumberDay day
  | (first, some last) => renumberRange first last

/-- An item: days, and a step that is kept as it is. -/
def renumberItem (item : List Char) : List Char :=
  match splitFirst '/' item with
  | (days, none) => renumberDays days
  | (days, some step) => renumberDays days ++ '/' :: step

def renumber (field : List Char) : List Char :=
  join [','] ((cut (· == ',') field).map renumberItem)

end RetentionJobs.Cron.Weekday
