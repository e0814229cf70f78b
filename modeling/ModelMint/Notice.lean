/-!
# Notices

What a run reports on its way, as lines of a log.
-/

namespace ModelMint

inductive Level where
  | info
  | warning
  | error
deriving DecidableEq, Repr

def Level.name : Level → String
  | .info => "INFO"
  | .warning => "WARNING"
  | .error => "ERROR"

/-- The part of the program that reports. -/
inductive Reporter where
  | generator
  | formatter
deriving DecidableEq, Repr

def Reporter.name : Reporter → String
  | .generator => "json_schema_to_model.pipeline.generator"
  | .formatter => "json_schema_to_model.pipeline.formatters.base"

structure Notice where
  level : Level
  reporter : Reporter := .generator
  text : String
deriving DecidableEq, Repr

def Notice.line (notice : Notice) : String := notice.level.name ++ " " ++ notice.text

/-- The line with the reporter in it. -/
def Notice.fullLine (notice : Notice) : String :=
  notice.level.name ++ " " ++ notice.reporter.name ++ ": " ++ notice.text

end ModelMint
