import TruthTables.Enumeration.Session
import TruthTables.Main
import TruthTables.Proofs.PrintedFormulas
import TruthTables.Proofs.PassSkeleton
import TruthTables.Proofs.TableShape
import TruthTables.Proofs.Validity
import TruthTables.Proofs.SyntaxErrors
import TruthTables.Proofs.MaximalMunch
import TruthTables.Proofs.RowWalks
import TruthTables.Proofs.HtmlReading
import TruthTables.Proofs.RowQuestions
import TruthTables.Proofs.SharedGraph
import TruthTables.Proofs.CsvReading
import TruthTables.Proofs.Spellings
import TruthTables.Proofs.ExactLimit
import TruthTables.Proofs.PrintedTables
import TruthTables.Proofs.ErrorPlaces
import TruthTables.Proofs.VariableBits
import TruthTables.Proofs.OperandTables
import TruthTables.Proofs.CallDepth
import TruthTables.Proofs.TextReading
import TruthTables.Proofs.LatexReading
import TruthTables.Proofs.OutputPaths
import TruthTables.Proofs.MemoTables
