import PdfCanvas.Image.Decode
import PdfCanvas.Page
import PdfCanvas.Proofs.Content.Plan
import PdfCanvas.Proofs.Numerals
import PdfCanvas.Proofs.Content.Refinement
import PdfCanvas.Proofs.Content.Atomicity
import PdfCanvas.Proofs.Reader.Lexer
import PdfCanvas.Proofs.Reader.Spelling
import PdfCanvas.Proofs.Content.Runs
import PdfCanvas.Proofs.Reader.Operations
import PdfCanvas.Proofs.Content.Grammar
import PdfCanvas.Proofs.Objects.Equality
import PdfCanvas.Proofs.Content.Steps
import PdfCanvas.Proofs.Page.Names
import PdfCanvas.Proofs.Content.ColorSpaces
import PdfCanvas.Proofs.Content.Fonts
import PdfCanvas.Proofs.Page.Assembly
import PdfCanvas.Proofs.Filter.Deflate
import PdfCanvas.Proofs.Filter.Repetition
import PdfCanvas.Proofs.Page.Decoding
import PdfCanvas.Proofs.Image.Masks
import PdfCanvas.Proofs.Content.TextObjects
import PdfCanvas.Proofs.Page.Isolation
import PdfCanvas.Proofs.Image.Filters
import PdfCanvas.Proofs.Sink.Capacity
import PdfCanvas.Proofs.Content.Subsets
import PdfCanvas.Proofs.Image.Caching
import PdfCanvas.Proofs.Machine.Images
import PdfCanvas.Proofs.Objects.ColorSpaces
import PdfCanvas.Proofs.Resources.Reloading
import PdfCanvas.Proofs.Resources.Search
import PdfCanvas.Proofs.Image.Limits
import PdfCanvas.Proofs.Filter.RunLength
import PdfCanvas.Proofs.Filter.AsciiHex
import PdfCanvas.Proofs.Page.Parameters
import PdfCanvas.Proofs.Filter.Predictors
import PdfCanvas.Proofs.Machine.EmptyRows
import PdfCanvas.Proofs.Filter.Inflate
import PdfCanvas.Proofs.Filter.Truncation
import PdfCanvas.Proofs.Page.Unclosed
import PdfCanvas.Proofs.Image.Packing
import PdfCanvas.Proofs.Image.DeviceColors
import PdfCanvas.Proofs.Image.Palettes
import PdfCanvas.Proofs.Image.ColorKeys
import PdfCanvas.Proofs.Filter.Lzw.Codes
import PdfCanvas.Proofs.Filter.Lzw.Variants
import PdfCanvas.Proofs.Content.Brackets
import PdfCanvas.Proofs.Reader.Delimiting
import PdfCanvas.Proofs.Decimal.Order
