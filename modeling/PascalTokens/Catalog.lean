import PascalTokens.Scan.State
import PascalTokens.Word

/-!
# The catalog of the program

What the program says about itself: its version, the names it publishes, and its tables in the
order of their code points.
-/

namespace PascalTokens

namespace Catalog

def version : Text := "0.1.0".toList

/-- Put a text before the first greater one. -/
def insert (t : Text) : List Text → List Text
  | [] => [t]
  | u :: rest => if Text.le t u then t :: u :: rest else u :: insert t rest

def sort (ts : List Text) : List Text := ts.foldr insert []

/-- The published names. -/
def names : List Text :=
  sort (["__version__", "analyze", "analyze_async", "analyze_many", "Analysis", "AnalysisFailure",
    "AnalysisResult", "LexicalAnalyzer", "Lexer", "LexerMode", "classify_word", "Token",
    "TokenClass", "PascalexError", "LexicalError", "SourceIOError", "import_source",
    "export_source", "to_dict", "from_dict", "to_json", "from_json", "AnalyzeAccumulator",
    "profiled_analyze", "get_analyze_accumulator", "AnalyzeConfig", "get_analyze_config",
    "set_analyze_config", "reset_analyze_config", "analyze_config_context"].map String.toList)

def labels : List (Text × Text) := TokenClass.all.map fun c => (c.name, c.label)

def modeName : Scan.Mode → Text
  | .normal => "NORMAL".toList
  | .string => "STRING".toList
  | .comment => "COMMENT".toList

def modes : List Text := [Scan.Mode.normal, .string, .comment].map modeName

def keywords : List Text := sort Symbol.keywords

def relational : List Text := sort Symbol.relational

def arithmetic : List Text := sort Symbol.arithmetic

def punctuation : List Text := sort (Symbol.punctuation.map fun c => [c])

def order : List Text := Word.order.map fun rule => rule.2.name

end Catalog

end PascalTokens
