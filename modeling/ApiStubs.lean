import ApiStubs.CommandLine
import ApiStubs.Document
import ApiStubs.Examples
import ApiStubs.Exclusion
import ApiStubs.Generation
import ApiStubs.Glob
import ApiStubs.Importer
import ApiStubs.Main
import ApiStubs.Page
import ApiStubs.Proofs.Ancestry
import ApiStubs.Proofs.Assigning
import ApiStubs.Proofs.Attesting
import ApiStubs.Proofs.Catching
import ApiStubs.Proofs.Clashes
import ApiStubs.Proofs.Confining
import ApiStubs.Proofs.Courses
import ApiStubs.Proofs.Discipline
import ApiStubs.Proofs.Excluding
import ApiStubs.Proofs.Exporting
import ApiStubs.Proofs.Finishing
import ApiStubs.Proofs.Forgetful
import ApiStubs.Proofs.Indexing
import ApiStubs.Proofs.Inventory
import ApiStubs.Proofs.Linking
import ApiStubs.Proofs.ModulePaths
import ApiStubs.Proofs.Nesting
import ApiStubs.Proofs.Normalizing
import ApiStubs.Proofs.Planning
import ApiStubs.Proofs.Printing
import ApiStubs.Proofs.Promises
import ApiStubs.Proofs.Provenance
import ApiStubs.Proofs.Reexports
import ApiStubs.Proofs.Registering
import ApiStubs.Proofs.RelativeImports
import ApiStubs.Proofs.Rereading
import ApiStubs.Proofs.Rerunning
import ApiStubs.Proofs.Retrying
import ApiStubs.Proofs.ShortestImport
import ApiStubs.Proofs.Submodules
import ApiStubs.Proofs.Walking
import ApiStubs.Proofs.Working
import ApiStubs.Proofs.Writing
import ApiStubs.Python.Loader
import ApiStubs.Python.Source
import ApiStubs.Settings
import ApiStubs.Survey
import ApiStubs.Symbol
