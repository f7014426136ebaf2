import SignedRecords.Cron.Schedule
import SignedRecords.Text.Blank

/-!
# Cron expressions as users write them

An expression of five words, from the minute to the day of the week, gets a second of zero in
front; any other is read as it stands.
-/

namespace SignedRecords.Cron

/-- An expression with blanks cut off and a second in front when it has five words. -/
def normalized (expression : String) : String :=
  let trimmed := Blank.trim expression
  if Blank.wordCount expression = 5 then "0 " ++ trimmed else trimmed

/-- The schedule of an expression. -/
def parse? (expression : String) : Option Schedule := Schedule.read? (normalized expression)

/-- What is said of an expression that is no schedule. -/
def invalidMessage (expression : String) : String :=
  "invalid cron expression '" ++ expression ++
    "': Invalid expression: Invalid cron expression."

end SignedRecords.Cron
